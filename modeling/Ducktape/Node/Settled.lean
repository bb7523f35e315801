import Ducktape.Lib.Newest
import Ducktape.Node.Drain

/-! # What a drain settles

A delivery above every floor and below the ceiling settles its height: a batch of the replay window is
refused, any other is run. `settledBy` lists what a drain settles. Whatever a driver does, its node
remembers what it settled (`laneStep_remembers`): the heights increase, the replay window holds the
newest batches, and a batch was refused exactly if it was among the newest before it. -/

namespace Ducktape

open Lib List

variable {C O J : Type}

/-! ## The replay window -/

namespace OrderedNode

theorem boundWindow_eq (window : List (Nat × FrameId)) :
    boundWindow window = window.rtake replayWindowHeights := rfl

/-- Truncating the window early loses nothing that counts later. -/
theorem boundWindow_append (old new : List (Nat × FrameId)) :
    boundWindow (boundWindow old ++ new) = boundWindow (old ++ new) :=
  rtake_append_rtake replayWindowHeights old new

@[simp] theorem boundWindow_boundWindow (window : List (Nat × FrameId)) :
    boundWindow (boundWindow window) = boundWindow window :=
  rtake_rtake replayWindowHeights window

@[simp] theorem boundWindow_nil : boundWindow [] = [] := rfl

end OrderedNode

open OrderedNode

section Settled

variable (L : Lane C O J)

/-- A sealed height: its batch, and whether the replay window refused it. -/
structure SealedBatch where
  height : Nat
  batch : FrameId
  refused : Bool
  deriving DecidableEq

/-- What the replay window keeps of it. -/
def SealedBatch.mark (settled : SealedBatch) : Nat × FrameId := (settled.height, settled.batch)

/-- Did the delivery settle its height? -/
def Delivered.settles : Delivered → Bool
  | .sealed | .barrier => true
  | _ => false

/-- What a drain settles, in order. -/
def settledBy : List (Nat × Bytes) → OrderedNode C O J → List SealedBatch
  | [], _ => []
  | (view, frame) :: rest, node =>
    let settled : SealedBatch :=
      ⟨node.viewBase + view, frameId L.crypto frame,
        node.replayWindow.any (·.2 = frameId L.crypto frame)⟩
    match deliver L view frame node with
    | (.passed, node) => settledBy rest node
    | (.sealed, node) => settled :: settledBy rest node
    | (.barrier, _) => [settled]
    | _ => []

/-- What an event settles. -/
def settledIn (node : OrderedNode C O J) : LaneEvent → List SealedBatch
  | .drain delivered => settledBy L (node.deferred ++ delivered) node
  | _ => []

end Settled

/-! ## One delivery -/

variable {floor : Option Nat}

section Deliver

variable {L : Lane C O J}

/-- A block that ran: sealed and remembered, or failed and not. -/
def Seals (height : Nat) (batch : FrameId) (node : OrderedNode C O J)
    (ran : Delivered × OrderedNode C O J) : Prop :=
  ran.2.appliedFloor = node.appliedFloor ∧
  match ran.1 with
  | .sealed | .barrier => ran.2.replayWindow = boundWindow (node.replayWindow ++ [(height, batch)])
  | .failed _ => ran.2.replayWindow = node.replayWindow
  | .passed | .stalled _ => False

variable {height : Nat} {batch : FrameId} {node node' : OrderedNode C O J}

theorem settleBlock_seals (disposition : Disposition) (floor : node'.appliedFloor = node.appliedFloor)
    (window : node'.replayWindow = node.replayWindow) :
    Seals height batch node (settleBlock L height batch disposition node') := by
  unfold settleBlock
  split
  · exact ⟨floor, window⟩
  · exact ⟨floor, by simp [rememberApplied, window]⟩

theorem Seals.raised {settled : Delivered × OrderedNode C O J} (seals : Seals height batch node settled)
    (before : OrderedNode C O J) : Seals height batch node (raiseBarrier before settled) := by
  rcases settled with ⟨_ | _ | _ | _ | _, settled⟩
  case sealed =>
      simp only [raiseBarrier]
      split <;> exact seals
  all_goals exact seals

theorem applyBatch_seals (height : Nat) (frame : Bytes) (prepared : PreparedWork)
    (node : OrderedNode C O J) :
    Seals height (frameId L.crypto frame) node (applyBatch L height frame prepared node) := by
  unfold applyBatch
  split
  · exact settleBlock_seals _ rfl rfl
  simp only
  split
  · exact ⟨rfl, rfl⟩
  · exact settleBlock_seals _ rfl rfl
  · refine (settleBlock_seals _ ?_ ?_).raised node
    · exact recordOutcome_keeps (·.appliedFloor) (fun _ _ _ _ _ => rfl) ..
    · exact recordOutcome_keeps (·.replayWindow) (fun _ _ _ _ _ => rfl) ..

/-- What a delivery does to the applied floor and the replay window. -/
def Leaves (height : Nat) (batch : FrameId) (node : OrderedNode C O J)
    (ran : Delivered × OrderedNode C O J) : Prop :=
  match ran.1 with
  | .sealed | .barrier => node.appliedFloor.all (· < height) ∧ ran.2.appliedFloor = some height ∧
      ran.2.replayWindow = boundWindow (node.replayWindow ++ [(height, batch)])
  | .passed | .stalled _ =>
    ran.2.appliedFloor = node.appliedFloor ∧ ran.2.replayWindow = node.replayWindow
  | .failed _ => ran.2.replayWindow = node.replayWindow ∧
      (ran.2.appliedFloor = node.appliedFloor ∨
        node.appliedFloor.all (· < height) ∧ ran.2.appliedFloor = some height)

/-- A block that ran at a fresh height moves the floor there. -/
theorem Seals.leaves {ran : Delivered × OrderedNode C O J} (fresh : node.appliedFloor.all (· < height))
    (floor : node'.appliedFloor = some height) (window : node'.replayWindow = node.replayWindow)
    (seals : Seals height batch node' ran) : Leaves height batch node ran := by
  obtain ⟨same, settles⟩ := seals
  rw [window] at settles
  rw [floor] at same
  rcases ran with ⟨_ | _ | _ | _ | _, ran⟩
  case passed => exact settles.elim
  case stalled => exact settles.elim
  case failed => exact ⟨settles, .inr ⟨fresh, same⟩⟩
  all_goals exact ⟨fresh, same, settles⟩

theorem refuseReplayed_leaves (fresh : node.appliedFloor.all (· < height)) :
    Leaves height batch node (refuseReplayed L height batch node) := by
  simp only [refuseReplayed, settleBlock]
  rcases L.sink.sealBlock _ _ with ⟨_ | _, j⟩
  · exact ⟨rfl, .inl rfl⟩
  · exact ⟨fresh, rfl, by simp only [rememberApplied, pushDrained]⟩

/-- A height the monotonicity check lets pass is above the applied floor. -/
theorem fresh_of_inOrder (inOrder : floor.filter (height ≤ ·) = none) :
    floor.all (· < height) := by
  cases floor with
  | none => rfl
  | some applied => simpa using inOrder

/-- A delivery seals a block above the floor and remembers its batch, or leaves the window alone; the floor only
ever moves to the delivery's height. -/
theorem deliver_leaves (view : Nat) (frame : Bytes) (node : OrderedNode C O J) :
    Leaves (node.viewBase + view) (frameId L.crypto frame) node (deliver L view frame node) := by
  unfold deliver
  simp only
  split
  · exact ⟨rfl, rfl⟩
  split
  · exact ⟨rfl, .inl rfl⟩
  rename_i inOrder
  have fresh := fresh_of_inOrder inOrder
  split
  · unfold discard
    split <;> exact ⟨rfl, rfl⟩
  split
  · exact refuseReplayed_leaves fresh
  split
  · exact ⟨rfl, rfl⟩
  unfold journalBatch
  simp only
  split
  · exact ⟨rfl, .inr ⟨fresh, rfl⟩⟩
  split
  · exact ⟨rfl, .inr ⟨fresh, rfl⟩⟩
  · refine Seals.leaves fresh ?_ ?_ (applyBatch_seals _ _ _ _) <;> rfl

end Deliver

/-! ## Drains -/

/-- Every settled batch was refused exactly if it was among the newest ones before it. -/
def Screened (past : List SealedBatch) : Prop :=
  ∀ before settled after, past = before ++ settled :: after →
    settled.refused = (boundWindow (before.map SealedBatch.mark)).any (·.2 = settled.batch)

/-- A boundary that something settled reaches. -/
def Reached (past : List SealedBatch) (height : Nat) : Prop := ∃ settled ∈ past, height ≤ settled.height

/-- The node settled `past`: its window holds the newest of it, its floor is no lower, and its finalized
boundary no higher. -/
structure Remembers (past : List SealedBatch) (node : OrderedNode C O J) : Prop where
  window : node.replayWindow = boundWindow (past.map SealedBatch.mark)
  screened : Screened past
  increasing : past.Pairwise (·.height < ·.height)
  floored : ∀ settled ∈ past, node.appliedFloor.any (settled.height ≤ ·)
  finalized : ∀ block, node.finalized = some block → Reached past block.height

section Remembers

variable {past : List SealedBatch} {node node' : OrderedNode C O J} {L : Lane C O J}

variable {height : Nat}

theorem Reached.mono {past more : List SealedBatch} (reached : Reached past height)
    (within : past ⊆ more) : Reached more height := by
  obtain ⟨settled, mem, le⟩ := reached
  exact ⟨settled, within mem, le⟩

theorem Screened.snoc (screened : Screened past) {settled : SealedBatch}
    (refused : settled.refused = (boundWindow (past.map SealedBatch.mark)).any (·.2 = settled.batch)) :
    Screened (past ++ [settled]) := by
  intro before other after eq
  cases after using reverseRecOn with
  | nil =>
    obtain ⟨rfl, same⟩ := append_inj' eq rfl
    cases same
    exact refused
  | append_singleton after last _ =>
    rw [← cons_append, ← append_assoc] at eq
    exact screened before other after (append_inj' eq rfl).1

theorem Screened.of_prefix {before : List SealedBatch} (screened : Screened past) (cut : before <+: past) :
    Screened before := by
  obtain ⟨rest, rfl⟩ := cut
  intro front settled after eq
  exact screened front settled (after ++ rest) (by rw [eq, append_assoc]; rfl)

theorem Remembers.of_same (remembers : Remembers past node) (window : node'.replayWindow = node.replayWindow)
    (floor : node'.appliedFloor = node.appliedFloor) (finalized : node'.finalized = node.finalized) :
    Remembers past node' :=
  ⟨window ▸ remembers.window, remembers.screened, remembers.increasing, floor ▸ remembers.floored,
    finalized ▸ remembers.finalized⟩

/-- A floor at or above a height is at or above every lower one. -/
theorem floor_mono {low high : Nat} (le : low ≤ high) (reached : floor.any (high ≤ ·)) :
    floor.any (low ≤ ·) := by
  cases floor with
  | none => cases reached
  | some applied => simpa using le.trans (by simpa using reached)

/-- A floor that moves up stays above what it was above. -/
theorem floor_raised {below : Nat} (fresh : floor.all (· < height)) (low : floor.any (below ≤ ·)) :
    below < height := by
  cases floor with
  | none => cases low
  | some applied =>
    have le : below ≤ applied := by simpa using low
    have lt : applied < height := by simpa using fresh
    omega

/-- The floor moved up, and nothing settled. -/
theorem Remembers.raise (remembers : Remembers past node)
    (fresh : node.appliedFloor.all (· < height)) (window : node'.replayWindow = node.replayWindow)
    (floor : node'.appliedFloor = some height) (finalized : node'.finalized = node.finalized) :
    Remembers past node' := by
  refine ⟨window ▸ remembers.window, remembers.screened, remembers.increasing, fun settled mem => ?_,
    finalized ▸ remembers.finalized⟩
  simpa [floor] using Nat.le_of_lt (floor_raised fresh (remembers.floored settled mem))

/-- One more height settled. -/
theorem Remembers.snoc (remembers : Remembers past node) {batch : FrameId}
    (fresh : node.appliedFloor.all (· < height)) (floor : node'.appliedFloor = some height)
    (window : node'.replayWindow = boundWindow (node.replayWindow ++ [(height, batch)]))
    (finalized : node'.finalized = node.finalized) :
    Remembers (past ++ [⟨height, batch, node.replayWindow.any (·.2 = batch)⟩]) node' := by
  have raised : Remembers past { node with appliedFloor := some height } := remembers.raise fresh rfl rfl rfl
  refine ⟨?_, remembers.screened.snoc (by rw [remembers.window]), ?_, ?_, ?_⟩
  · rw [window, remembers.window, boundWindow_append, map_append]
    rfl
  · rw [pairwise_append]
    refine ⟨remembers.increasing, pairwise_singleton _ _, fun settled mem last eq => ?_⟩
    rw [mem_singleton.mp eq]
    exact floor_raised fresh (remembers.floored settled mem)
  · intro settled mem
    rw [floor]
    rcases mem_append.mp mem with mem | mem
    · exact raised.floored settled mem
    · simp [mem_singleton.mp mem]
  · rw [finalized]
    exact fun block eq => (remembers.finalized block eq).mono (subset_append_left _ _)

/-- One delivery. -/
theorem deliver_remembers (remembers : Remembers past node) {view : Nat} {frame : Bytes}
    {delivered : Delivered} (ran : deliver L view frame node = (delivered, node')) :
    Remembers (past ++ if delivered.settles then [⟨node.viewBase + view, frameId L.crypto frame,
      node.replayWindow.any (·.2 = frameId L.crypto frame)⟩] else []) node' := by
  have leaves := deliver_leaves (L := L) view frame node
  have finalized : (deliver L view frame node).2.finalized = node.finalized :=
    deliver_keeps (fun _ _ _ _ _ _ _ _ _ _ _ => rfl) view frame node
  rw [ran] at leaves finalized
  have none : Remembers past node' → Remembers (past ++ []) node' := fun kept => by rwa [append_nil]
  cases delivered with
  | passed | stalled => exact none (remembers.of_same leaves.2 leaves.1 finalized)
  | sealed | barrier => exact remembers.snoc leaves.1 leaves.2.1 leaves.2.2 finalized
  | failed e =>
    obtain ⟨window, floor | ⟨fresh, floor⟩⟩ := leaves
    · exact none (remembers.of_same window floor finalized)
    · exact none (remembers.raise fresh window floor finalized)

/-- The last view a drain sealed is settled. -/
def SealedIn (past : List SealedBatch) (count : DrainCount) (node : OrderedNode C O J) : Prop :=
  ∀ view, count.lastSealedView = some view → Reached past (node.viewBase + view)

/-- A whole drain over what is deferred. -/
theorem drainDeferred_remembers (queue : List (Nat × Bytes)) (count : DrainCount)
    (remembers : Remembers past node) (sealed : SealedIn past count node)
    {drained : Except NodeError DrainCount}
    (ran : drainDeferred L queue count node = (drained, node')) :
    Remembers (past ++ settledBy L queue node) node' ∧
    ∀ count', drained = .ok count' → SealedIn (past ++ settledBy L queue node) count' node' := by
  induction queue generalizing past node count with
  | nil =>
    cases ran
    rw [settledBy, append_nil]
    exact ⟨remembers.of_same rfl rfl rfl, fun count' eq => by cases eq; exact sealed⟩
  | cons delivery queue ih =>
    obtain ⟨view, frame⟩ := delivery
    simp only [drainDeferred] at ran
    simp only [settledBy]
    cases delivers : deliver L view frame node with
    | mk delivered mid =>
    have next := deliver_remembers remembers delivers
    have base : mid.viewBase = node.viewBase := by
      have kept : (deliver L view frame node).2.viewBase = node.viewBase :=
        deliver_keeps (fun _ _ _ _ _ _ _ _ _ _ _ => rfl) view frame node
      rwa [delivers] at kept
    -- a view just sealed is the last one settled
    have last : ∀ settled : SealedBatch, settled.height = node.viewBase + view →
        Reached (past ++ [settled]) (mid.viewBase + view) := fun settled at_view =>
      ⟨settled, by simp, by rw [at_view, base]⟩
    rw [delivers] at ran
    cases delivered with
    | passed =>
      refine ih _ (append_nil past ▸ next) (fun view' eq => ?_) ran
      rw [base]
      exact sealed view' eq
    | sealed =>
      have rest := ih _ next (fun view' eq => by cases eq; exact last _ rfl) ran
      rw [append_assoc] at rest
      exact rest
    | barrier =>
      cases ran
      refine ⟨next.of_same rfl rfl rfl, ?_⟩
      rintro count' ⟨⟩ view' ⟨⟩
      exact last _ rfl
    | stalled | failed =>
      cases ran
      exact ⟨next.of_same rfl rfl rfl, fun count' eq => by cases eq⟩

/-- The finalized boundary a drain leaves is settled. -/
theorem Remembers.finalize (remembers : Remembers past node) {count : DrainCount}
    (sealed : SealedIn past count node) : Remembers past (advanceFinalized count node) := by
  obtain ⟨applied, lastView, lastSealedView⟩ := count
  have viewed : Remembers past (advanceFinalized ⟨applied, lastView, none⟩ node) := by
    cases lastView <;> exact remembers.of_same rfl rfl rfl
  cases lastSealedView with
  | none => exact viewed
  | some view =>
    have reached := sealed view rfl
    cases lastView <;> simp only [advanceFinalized] <;> split
    all_goals
      first
        | exact remembers.of_same rfl rfl rfl
        | exact ⟨remembers.window, remembers.screened, remembers.increasing, remembers.floored,
            by rintro block ⟨⟩; exact reached⟩

/-- Whatever a driver does, the node remembers what it settled. -/
theorem laneStep_remembers (remembers : Remembers past node) (event : LaneEvent) :
    Remembers (past ++ settledIn L node event) (laneStep L event node).2 := by
  have quiet : (laneStep L event node).2.replayWindow = node.replayWindow →
      (laneStep L event node).2.appliedFloor = node.appliedFloor →
      (laneStep L event node).2.finalized = node.finalized →
      Remembers (past ++ []) (laneStep L event node).2 := fun window floor finalized => by
    rw [append_nil]
    exact remembers.of_same window floor finalized
  cases event with
  | drain delivered =>
    simp only [laneStep, drainDelivered]
    cases ran : drainDeferred L (node.deferred ++ delivered) ⟨0, none, none⟩ node with
    | mk drained mid =>
    obtain ⟨next, sealed⟩ := drainDeferred_remembers _ _ remembers (fun view eq => by cases eq) ran
    cases drained with
    | error e => exact next
    | ok count => exact next.finalize (sealed count rfl)
  | propose | ceiling | watch => exact quiet rfl rfl rfl
  | cutover epoch viewBase participants residents =>
    refine quiet ?_ ?_ ?_ <;> (simp only [laneStep, cutOver]; split <;> rfl)

end Remembers

end Ducktape
