import Ducktape.Host.Isolation
import Ducktape.Node.Settled
import Ducktape.Recovery.Scan

/-! # What the ordered lane journals

A node's life over the recovery store. Whatever its driver does, the journal it leaves is a ledger
(`runLane_ledgered`); the one entry a reader does not accept is a refused batch, which the drain seals
without having opened it. So every crash of a run leaves a journal both readers accept if and only if no
delivery repeats a batch of the replay window (`runLane_recoverable_iff`). -/

namespace Ducktape

open Lib List Record Entry

variable {C O : Type}

/-- The ordered lane over the recovery store. -/
def journaledLane (crypto : FrameCrypto) (realize : Recovery.Realize C O) : Lane C O Store :=
  ⟨crypto, journalSink, realize⟩

/-! ## Deliveries that repeat a batch -/

section Repeats

variable {J : Type} (L : Lane C O J)

/-- A delivery above every floor and below the ceiling whose batch the replay window knows. -/
def repeatsBatch (view : Nat) (frame : Bytes) (node : OrderedNode C O J) : Bool :=
  !node.resumeFloor.any (node.viewBase + view ≤ ·) &&
    node.appliedFloor.all (· < node.viewBase + view) && !node.viewCeiling.any (· ≤ view) &&
    node.replayWindow.any (·.2 = frameId L.crypto frame)

/-- No delivery of a drain repeats a batch. -/
def FreshDrain : List (Nat × Bytes) → OrderedNode C O J → Prop
  | [], _ => True
  | (view, frame) :: rest, node =>
    repeatsBatch L view frame node = false ∧
    match deliver L view frame node with
    | (.passed, node) | (.sealed, node) => FreshDrain rest node
    | _ => True

/-- No delivery of an event repeats a batch. -/
def FreshEvent (node : OrderedNode C O J) : LaneEvent → Prop
  | .drain delivered => FreshDrain L (node.deferred ++ delivered) node
  | _ => True

/-- No delivery of a run repeats a batch. -/
def FreshRun : List LaneEvent → OrderedNode C O J → Prop
  | [], _ => True
  | event :: events, node =>
    FreshEvent L node event ∧
    match laneStep L event node with
    | (.ok (), node) => FreshRun events node
    | (.error e, node) => e.stops = false → FreshRun events node

end Repeats

/-! ## One delivery -/

/-- The node's journal is the ledger `entries`, at or below the applied floor. -/
structure Holds (entries : List Entry) (node : OrderedNode C O Store) : Prop where
  records : node.sink.journal.records = ledgerRecords entries
  increasing : (settledHeights entries).Pairwise (· < ·)
  floored : ∀ height ∈ settledHeights entries, node.appliedFloor.any (height ≤ ·)

/-- No block of these records repeats a batch of the replay window. -/
def Unseen (crypto : FrameCrypto) (tail : List Record) (node : OrderedNode C O Store) : Prop :=
  ∀ height frame source, .block height frame source ∈ tail →
    node.replayWindow.any (·.2 = frameId crypto frame) = false

/-- A journal that is a ledger and perhaps one block in flight, which repeats no batch. -/
def Stopped (crypto : FrameCrypto) (entries : List Entry) (node : OrderedNode C O Store) : Prop :=
  ∃ tail, Ledgered entries tail node.sink.journal.records ∧ Unseen crypto tail node

/-- What an entry tells of a height: a refused batch leaves the height alone. -/
def Entry.settles (crypto : FrameCrypto) : Entry → Option (Nat × Option FrameId)
  | .pin _ | .cutover .. => none
  | .block settled => some (settled.outcome.height, some (frameId crypto settled.frame))
  | .refused outcome => some (outcome.height, none)

/-- What the journal tells of a settled height. -/
def SealedBatch.told (settled : SealedBatch) : Nat × Option FrameId :=
  (settled.height, if settled.refused then none else some settled.batch)

/-- The entries tell what was settled, in order. -/
def Tells (crypto : FrameCrypto) (entries : List Entry) (past : List SealedBatch) : Prop :=
  entries.filterMap (Entry.settles crypto) = past.map SealedBatch.told

variable {height : Nat}

section Deliver

variable {crypto : FrameCrypto} {entries : List Entry} {node node' : OrderedNode C O Store}
  {past : List SealedBatch} {entry : Entry} {prepared : PreparedWork} {delivered : Delivered}

variable {more : List Entry}

theorem Tells.append {rest : List SealedBatch} (tells : Tells crypto entries past)
    (also : Tells crypto more rest) : Tells crypto (entries ++ more) (past ++ rest) := by
  rw [Tells, filterMap_append, map_append, tells, also]

theorem Tells.cons {settled : SealedBatch} (told : entry.settles crypto = some settled.told)
    (tells : Tells crypto entries past) : Tells crypto (entry :: entries) (settled :: past) := by
  rw [Tells, filterMap_cons_some told, map_cons, tells]

theorem Holds.stopped (crypto : FrameCrypto) (holds : Holds entries node) : Stopped crypto entries node :=
  ⟨[], ⟨by simpa using holds.records, holds.increasing, .inl rfl⟩, fun _ _ _ mem => by cases mem⟩

section

variable (holds : Holds entries node)
include holds

/-- Nothing was journaled. -/
theorem Holds.of_same (sink : node'.sink = node.sink) (floor : node'.appliedFloor = node.appliedFloor) :
    Holds entries node' :=
  ⟨sink ▸ holds.records, holds.increasing, floor ▸ holds.floored⟩

/-- Heights above the applied floor are above everything settled. -/
theorem Holds.above (fresh : node.appliedFloor.all (· < height)) :
    ∀ entry ∈ entries, ∀ below, entry.height? = some below → below < height := by
  intro entry mem below eq
  have settled := holds.floored below (mem_filterMap.mpr ⟨entry, mem, eq⟩)
  cases floor : node.appliedFloor with
  | none => simp [floor] at settled
  | some applied =>
    have low : below ≤ applied := by simpa [floor] using settled
    have high : applied < height := by simpa [floor] using fresh
    omega

/-- One more entry above the applied floor. -/
theorem Holds.snoc (settles : entry.height? = some height)
    (fresh : node.appliedFloor.all (· < height))
    (records : node'.sink.journal.records = node.sink.journal.records ++ entry.records)
    (floor : node'.appliedFloor = some height) : Holds (entries ++ [entry]) node' := by
  have heights : settledHeights (entries ++ [entry]) = settledHeights entries ++ [height] := by
    simp [settledHeights, settles]
  have above : ∀ below ∈ settledHeights entries, below < height := by
    intro below mem
    obtain ⟨earlier, mem, eq⟩ := mem_filterMap.mp mem
    exact holds.above fresh earlier mem below eq
  refine ⟨?_, ?_, ?_⟩
  · rw [records, holds.records]
    simp [ledgerRecords]
  · rw [heights, pairwise_append]
    exact ⟨holds.increasing, pairwise_singleton _ _, by simpa using above⟩
  · intro h mem
    rw [heights, mem_append, mem_singleton] at mem
    rw [floor]
    rcases mem with mem | rfl
    · simpa using Nat.le_of_lt (above h mem)
    · simp

/-- One more entry that settles no height. -/
theorem Holds.note (settles : entry.height? = none)
    (records : node'.sink.journal.records = node.sink.journal.records ++ entry.records)
    (floor : node'.appliedFloor = node.appliedFloor) : Holds (entries ++ [entry]) node' := by
  have heights : settledHeights (entries ++ [entry]) = settledHeights entries := by
    simp [settledHeights, settles]
  refine ⟨?_, heights ▸ holds.increasing, ?_⟩
  · rw [records, holds.records]
    simp [ledgerRecords]
  · rw [heights, floor]
    exact holds.floored

/-- A block that was opened and not sealed. -/
theorem Holds.opened {frame : Bytes} {witness : Option Witness}
    (fresh : node.appliedFloor.all (· < height))
    (records : node'.sink.journal.records = node.sink.journal.records ++
      openingRecords height frame prepared .consensus witness)
    (unseen : node'.replayWindow.any (·.2 = frameId crypto frame) = false) :
    Stopped crypto entries node' := by
  refine ⟨_, ⟨by rw [records, holds.records], holds.increasing,
    .inr ⟨height, frame, prepared, .consensus, witness, prefix_rfl, holds.above fresh⟩⟩, ?_⟩
  intro h f source mem
  rw [openingRecords_eq, mem_cons] at mem
  rcases mem with eq | mem
  · cases eq
    exact unseen
  · exact absurd (marks_of_mem_body mem).1 (by simp [marks])

end

variable {realize : Recovery.Realize C O} {height : Nat} {frame : Bytes}

/-- What a run of a journaled batch adds: its witness if it got that far, and its seal if it
settled. -/
def Ran (height : Nat) (delivered : Delivered) (node node' : OrderedNode C O Store) : Prop :=
  node'.appliedFloor = node.appliedFloor ∧ ∃ witness : Option Witness,
    let recorded := node.sink.journal.records ++ (witness.map (witnessRecords height)).getD []
    match delivered with
    | .failed e => e.stops ∧ node'.sink.journal.records = recorded
    | .sealed | .barrier => ∃ outcome : BlockSeal, outcome.height = height ∧
        (outcome.disposition ≠ .rejected → witness.isSome) ∧
        node'.sink.journal.records = recorded ++ [.sealed outcome]
    | .passed | .stalled _ => False

/-- A batch that settles: its seal follows what was recorded. -/
theorem settleBlock_ran (before : OrderedNode C O Store) {batch : FrameId} {disposition : Disposition}
    (ran : settleBlock (journaledLane crypto realize) height batch disposition node
      = (delivered, node')) (witness : Option Witness)
    (witnessed : disposition ≠ .rejected → witness.isSome)
    (recorded : node.sink.journal.records
      = before.sink.journal.records ++ (witness.map (witnessRecords height)).getD [])
    (floor : node.appliedFloor = before.appliedFloor) :
    delivered = .sealed ∧ Ran height .sealed before node' := by
  cases ran
  refine ⟨rfl, floor, witness, node.sealNow height disposition, rfl, witnessed, ?_⟩
  rw [← recorded]
  rfl

/-- A journaled batch adds its witness if it got that far, and its seal if it settled. -/
theorem applyBatch_ran
    (ran : applyBatch (journaledLane crypto realize) height frame prepared node = (delivered, node')) :
    Ran height delivered node node' := by
  have rejected : ∀ {disposition : Disposition}, disposition = .rejected → disposition ≠ .rejected →
      (none : Option Witness).isSome := fun same other => absurd same other
  simp only [applyBatch] at ran
  split at ran
  · obtain ⟨rfl, effect⟩ := settleBlock_ran node ran none (rejected rfl) (append_nil _).symm rfl
    exact effect
  split at ran
  · -- a fault: the witness may have been recorded
    rename_i fault host store submitted
    cases ran
    rcases applyBlock_sink submitted with ⟨rfl, -⟩ | ⟨witness, rfl, -⟩
    · exact ⟨rfl, none, rfl, (append_nil _).symm⟩
    · exact ⟨rfl, some witness, rfl, rfl⟩
  · -- the injection was rejected: nothing was recorded
    rename_i e host store submitted
    rcases applyBlock_sink submitted with ⟨rfl, -⟩ | ⟨-, -, faults⟩
    · obtain ⟨rfl, effect⟩ := settleBlock_ran node ran none (rejected rfl) (append_nil _).symm rfl
      exact effect
    · obtain ⟨fault, eq⟩ := faults _ rfl
      cases eq
  · rename_i outcome host store submitted
    rcases applyBlock_sink submitted with ⟨-, e, eq⟩ | ⟨witness, rfl, -⟩
    · cases eq
    generalize members : decodeMembers _ _ [] = decoded at ran
    have left := recordOutcome_applied height decoded outcome
      { node with host := host, sink := node.sink.append (witnessRecords height witness) }
    simp only [OrderedNode.applied, Prod.mk.injEq] at left
    obtain ⟨-, -, sink, floor⟩ := left
    generalize settles : settleBlock _ _ _ _ _ = settled at ran
    obtain ⟨d, settled⟩ := settled
    obtain ⟨rfl, effect⟩ := settleBlock_ran node settles (some witness) (fun _ => rfl)
      (congrArg (·.journal.records) sink) floor
    cases ran
    split <;> exact effect

/-! ## Deliveries and drains -/

/-- What one delivery leaves, with the entry it adds. -/
def Adds (crypto : FrameCrypto) (entries : List Entry) (delivered : Delivered) (repeated : Bool)
    (settled : SealedBatch) (node' : OrderedNode C O Store) : Prop :=
  match delivered with
  | .passed | .stalled _ => repeated = false ∧ Holds entries node'
  | .sealed | .barrier => ∃ entry, entry.isRefused = repeated ∧
      entry.settles crypto = some settled.told ∧ Holds (entries ++ [entry]) node'
  | .failed e => repeated = false ∧ e.stops ∧ Stopped crypto entries node'

/-- A block opened at a fresh height, and run. -/
theorem Holds.ran (holds : Holds entries node) (fresh : node.appliedFloor.all (· < height))
    {opened : OrderedNode C O Store} (records : opened.sink.journal.records
      = node.sink.journal.records ++ blockRecords height frame prepared .consensus)
    (floor : opened.appliedFloor = some height) (ran : Ran height delivered opened node')
    (unseen : ∀ e, delivered = .failed e →
      node'.replayWindow.any (·.2 = frameId crypto frame) = false) :
    Adds crypto entries delivered false ⟨height, frameId crypto frame, false⟩ node' := by
  obtain ⟨same, witness, effect⟩ := ran
  have opening : opened.sink.journal.records ++ (witness.map (witnessRecords height)).getD []
      = node.sink.journal.records ++ openingRecords height frame prepared .consensus witness := by
    rw [records, openingRecords, append_assoc]
  rw [floor] at same
  have settles : ∀ outcome : BlockSeal, outcome.height = height →
      (outcome.disposition ≠ .rejected → witness.isSome) →
      node'.sink.journal.records = opened.sink.journal.records ++
        (witness.map (witnessRecords height)).getD [] ++ [.sealed outcome] →
      ∃ entry : Entry, entry.isRefused = false ∧
        entry.settles crypto = some (height, some (frameId crypto frame)) ∧
        Holds (entries ++ [entry]) node' := by
    rintro outcome rfl witnessed written
    refine ⟨.block ⟨frame, prepared, .consensus, witness, outcome, witnessed, rfl⟩, rfl, rfl,
      holds.snoc rfl fresh ?_ same⟩
    rw [written, opening, append_assoc]
    rfl
  cases delivered with
  | passed | stalled => exact effect.elim
  | failed e => exact ⟨rfl, effect.1, holds.opened fresh (effect.2.trans opening) (unseen e rfl)⟩
  | sealed | barrier =>
    obtain ⟨outcome, at_height, witnessed, written⟩ := effect
    exact settles outcome at_height witnessed written

/-- One delivery: what it adds to the ledger, a refused batch exactly if it repeats one. -/
theorem deliver_adds (holds : Holds entries node) {view : Nat}
    (ran : deliver (journaledLane crypto realize) view frame node = (delivered, node')) :
    Adds crypto entries delivered (repeatsBatch (journaledLane crypto realize) view frame node)
      ⟨node.viewBase + view, frameId crypto frame,
        node.replayWindow.any (·.2 = frameId crypto frame)⟩ node' := by
  have leaves := deliver_leaves (L := journaledLane crypto realize) view frame node
  rw [ran] at leaves
  simp only [deliver] at ran
  split at ran
  · rename_i resumed
    cases ran
    exact ⟨by simp [repeatsBatch, resumed], holds⟩
  rename_i live
  split at ran
  · rename_i applied late
    cases ran
    obtain ⟨floor, above⟩ := Option.filter_eq_some_iff.mp late
    have stale : ¬ applied < node.viewBase + view := by simpa using above
    exact ⟨by simp [repeatsBatch, floor, stale], rfl, holds.stopped crypto⟩
  rename_i inOrder
  have fresh := fresh_of_inOrder inOrder
  split at ran
  · rename_i past
    cases ran
    refine ⟨by simp [repeatsBatch, past], holds.of_same ?_ ?_⟩ <;>
      (simp only [discard]; split <;> rfl)
  rename_i below
  split at ran
  · rename_i known
    cases ran
    refine ⟨.refused (node.sealNow (node.viewBase + view) .rejected), ?_, ?_, ?_⟩
    · simp [repeatsBatch, live, fresh, below, known, isRefused]
    · have told : SealedBatch.told ⟨node.viewBase + view, frameId crypto frame,
          node.replayWindow.any (·.2 = frameId crypto frame)⟩ = (node.viewBase + view, none) :=
        congrArg (Prod.mk _) (if_pos known)
      rw [told]
      rfl
    · exact holds.snoc rfl fresh rfl rfl
  rename_i unknown
  have single : repeatsBatch (journaledLane crypto realize) view frame node = false := by
    simp [repeatsBatch, unknown]
  have unknown : node.replayWindow.any (·.2 = frameId crypto frame) = false :=
    Bool.eq_false_iff.mpr unknown
  rw [single, unknown]
  split at ran
  · cases ran
    exact ⟨rfl, holds⟩
  simp only [journalBatch] at ran
  split at ran
  · cases ran
    exact ⟨rfl, rfl, (holds.of_same rfl rfl).stopped crypto⟩
  refine holds.ran fresh rfl rfl (applyBatch_ran ran) fun e failed => ?_
  subst failed
  have window : node'.replayWindow = node.replayWindow := leaves.1
  rw [window, unknown]

/-- No entry is a refused batch. -/
def Unrefused (entries : List Entry) : Prop := ∀ entry ∈ entries, entry.isRefused = false

theorem unrefused_append :
    Unrefused (entries ++ more) ↔ Unrefused entries ∧ Unrefused more := by
  simp [Unrefused, or_imp, forall_and]

/-- A whole drain extends the ledger, by refused batches exactly where deliveries repeat one, and an
error it survives leaves no block in flight. -/
theorem drainDeferred_adds (queue : List (Nat × Bytes)) (count : DrainCount) (holds : Holds entries node)
    {drained : Except NodeError DrainCount}
    (ran : drainDeferred (journaledLane crypto realize) queue count node = (drained, node')) :
    ∃ more, (Unrefused more ↔ FreshDrain (journaledLane crypto realize) queue node) ∧
      Tells crypto more (settledBy (journaledLane crypto realize) queue node) ∧
      Stopped crypto (entries ++ more) node' ∧
      ((∀ e, drained = .error e → e.stops = false) → Holds (entries ++ more) node') := by
  induction queue generalizing entries node count with
  | nil =>
    cases ran
    refine ⟨[], by simp [Unrefused, FreshDrain], rfl, ?_⟩
    rw [append_nil]
    exact ⟨holds.stopped crypto, fun _ => holds.of_same rfl rfl⟩
  | cons delivery queue ih =>
    obtain ⟨view, frame⟩ := delivery
    simp only [drainDeferred] at ran
    simp only [FreshDrain, settledBy]
    cases delivers : deliver (journaledLane crypto realize) view frame node with
    | mk delivered mid =>
    have adds := deliver_adds holds delivers
    rw [delivers] at ran
    cases delivered with
    | passed =>
      obtain ⟨fresh, kept⟩ := adds
      obtain ⟨more, refused, tells, stopped, goesOn⟩ := ih _ kept ran
      exact ⟨more, by simp [fresh, refused], tells, stopped, goesOn⟩
    | sealed =>
      obtain ⟨entry, same, told, kept⟩ := adds
      obtain ⟨more, refused, tells, stopped, goesOn⟩ := ih _ kept ran
      refine ⟨entry :: more, ?_, Tells.cons told tells, ?_⟩
      · have all : Unrefused (entry :: more) ↔ entry.isRefused = false ∧ Unrefused more := by
          simp [Unrefused]
        rw [all, refused, same]
      · rw [← singleton_append, ← append_assoc]
        exact ⟨stopped, goesOn⟩
    | barrier =>
      obtain ⟨entry, same, told, kept⟩ := adds
      cases ran
      exact ⟨[entry], by simp [Unrefused, same], Tells.cons told rfl, kept.stopped crypto,
        fun _ => kept.of_same rfl rfl⟩
    | stalled e =>
      obtain ⟨fresh, kept⟩ := adds
      cases ran
      refine ⟨[], by simp [Unrefused, fresh], rfl, ?_⟩
      rw [append_nil]
      exact ⟨kept.stopped crypto, fun _ => kept.of_same rfl rfl⟩
    | failed e =>
      obtain ⟨fresh, stops, stopped⟩ := adds
      cases ran
      refine ⟨[], by simp [Unrefused, fresh], rfl, ?_⟩
      rw [append_nil]
      refine ⟨stopped, fun survived => ?_⟩
      have := survived e rfl
      rw [stops] at this
      cases this

/-- Whatever a driver does, the journal stays a ledger, with refused batches exactly where deliveries
repeat one. -/
theorem laneStep_adds (event : LaneEvent) (holds : Holds entries node) {stepped : Except NodeError Unit}
    (ran : laneStep (journaledLane crypto realize) event node = (stepped, node')) :
    ∃ more, (Unrefused more ↔ FreshEvent (journaledLane crypto realize) node event) ∧
      Tells crypto more (settledIn (journaledLane crypto realize) node event) ∧
      Stopped crypto (entries ++ more) node' ∧
      ((∀ e, stepped = .error e → e.stops = false) → Holds (entries ++ more) node') := by
  cases event with
  | propose members =>
    have kept : Holds (entries ++ [.pin (encodeBatch members)]) node' := by
      cases ran
      exact holds.note rfl rfl rfl
    refine ⟨_, ?_, ?_, kept.stopped crypto, fun _ => kept⟩
    · simp [Unrefused, isRefused, FreshEvent]
    · rfl
  | cutover epoch viewBase participants residents =>
    have kept : Holds (entries ++ [.cutover epoch viewBase participants residents]) node' := by
      cases ran
      exact holds.note rfl rfl rfl
    refine ⟨_, ?_, ?_, kept.stopped crypto, fun _ => kept⟩
    · simp [Unrefused, isRefused, FreshEvent]
    · rfl
  | ceiling | watch =>
    cases ran
    refine ⟨[], by simp [Unrefused, FreshEvent], rfl, ?_⟩
    rw [append_nil]
    exact ⟨holds.stopped crypto, fun _ => holds.of_same rfl rfl⟩
  | drain delivered =>
    simp only [laneStep, drainDelivered] at ran
    cases drains : drainDeferred (journaledLane crypto realize) (node.deferred ++ delivered)
      ⟨0, none, none⟩ node with
    | mk drained mid =>
    obtain ⟨more, refused, tells, stopped, goesOn⟩ := drainDeferred_adds _ _ holds drains
    rw [drains] at ran
    refine ⟨more, refused, tells, ?_⟩
    cases drained with
    | error e =>
      cases ran
      exact ⟨stopped, fun survived => goesOn fun e' eq => by cases eq; exact survived _ rfl⟩
    | ok count =>
      cases ran
      have kept := goesOn fun e eq => by cases eq
      have sink : (advanceFinalized count mid).sink = mid.sink ∧
          (advanceFinalized count mid).appliedFloor = mid.appliedFloor := by
        simp only [advanceFinalized]
        split <;> split <;> (try split) <;> exact ⟨rfl, rfl⟩
      have kept := kept.of_same sink.1 sink.2
      exact ⟨kept.stopped crypto, fun _ => kept⟩

variable (crypto realize) in
/-- A whole run leaves a ledger, with refused batches exactly where deliveries repeat one. -/
theorem runLane_ledgered (events : List LaneEvent) (holds : Holds entries node) :
    ∃ more, (Unrefused more ↔ FreshRun (journaledLane crypto realize) events node) ∧
      Stopped crypto (entries ++ more) (runLane (journaledLane crypto realize) events node) := by
  induction events generalizing entries node with
  | nil =>
    refine ⟨[], by simp [Unrefused, FreshRun], ?_⟩
    rw [append_nil]
    exact holds.stopped crypto
  | cons event events ih =>
    cases steps : laneStep (journaledLane crypto realize) event node with
    | mk stepped mid =>
    obtain ⟨more, refused, -, stopped, goesOn⟩ := laneStep_adds event holds steps
    -- the process goes on from a ledger, or stops where this event left it
    have next : Holds (entries ++ more) mid → ∃ rest, (Unrefused (more ++ rest) ↔
        Unrefused more ∧ FreshRun (journaledLane crypto realize) events mid) ∧
        Stopped crypto (entries ++ (more ++ rest)) (runLane (journaledLane crypto realize) events mid) := by
      intro kept
      obtain ⟨rest, refused', stopped'⟩ := ih kept
      refine ⟨rest, by rw [unrefused_append, refused'], ?_⟩
      rw [← append_assoc]
      exact stopped'
    simp only [FreshRun, runLane, steps, ← refused]
    cases stepped with
    | ok _ =>
      obtain ⟨rest, refused', stopped'⟩ := next (goesOn fun e eq => by cases eq)
      exact ⟨more ++ rest, refused', stopped'⟩
    | error e =>
      dsimp only
      cases stops : e.stops with
      | true => exact ⟨more, by simp, by simpa using stopped⟩
      | false =>
        obtain ⟨rest, refused', stopped'⟩ := next (goesOn fun e' eq => by cases eq; exact stops)
        exact ⟨more ++ rest, by simpa using refused', by simpa using stopped'⟩

end Deliver

/-! ## What readers want of a journal -/

/-- The height a block record opens. -/
def Record.opens : Record → Option Nat
  | .block height .. => some height
  | _ => none

/-- The height a seal settles. -/
def Record.seals : Record → Option Nat
  | .sealed outcome => some outcome.height
  | _ => none

/-- The range ends below the block that a crash left without its seal, if there is one. The reader finds a range
that reaches this block corrupt. -/
def Journal.EndsSealed (journal : Journal) (upTo : Nat) : Prop :=
  (Recovery.trailingWalHeight none journal.records).all (upTo < ·)

/-- A journal whose seals follow their blocks, whose heights increase, which recovery never finds corrupt, and of
which every range that ends below a block in flight is served. -/
structure Accepted (C O : Type) (journal : Journal) : Prop where
  opened : ∀ (i height : Nat), journal.records[i]?.bind Record.seals = some height →
    ∃ j < i, journal.records[j]?.bind Record.opens = some height
  increasing : (journal.records.filterMap Record.opens).Pairwise (· < ·) ∧
    (journal.records.filterMap Record.seals).Pairwise (· < ·)
  recovers : ∀ (crypto : FrameCrypto) (realize : Recovery.Realize C O) (manifest : Recovery.Manifest)
    (code : Host C O) (host : HostState C) (manifestHeight : Option Nat),
    Recovery.NotCorrupt (Recovery.recover crypto realize manifest code host
      (.reopen journal manifestHeight)).1
  serves : ∀ (manifestHeight : Option Nat) (after upTo limit : Nat), after ≤ upTo → journal.EndsSealed upTo →
    Recovery.NotCorrupt (readFinalizedFrames (.reopen journal manifestHeight) after upTo limit)

section Accepted

variable {entries : List Entry} {tail : List Record}

theorem filterMap_body {β : Type} {body : List Record} {f : Record → Option β}
    (unmarked : ∀ record ∈ body, record.marks = false)
    (silent : ∀ record : Record, record.marks = false → f record = none) : body.filterMap f = [] := by
  rw [filterMap_eq_nil_iff]
  exact fun record mem => silent record (unmarked record mem)

theorem Record.opens_of_unmarked (record : Record) (plain : record.marks = false) :
    record.opens = none := by
  cases record <;> first | rfl | cases plain

theorem Record.seals_of_unmarked (record : Record) (plain : record.marks = false) :
    record.seals = none := by
  cases record <;> first | rfl | cases plain

/-- An entry seals its own height. -/
theorem Entry.records_seals (entry : Entry) :
    entry.records.filterMap seals = entry.height?.toList := by
  cases entry with
  | block settled =>
    simp only [Entry.records, SettledBlock.records, SettledBlock.opening, openingRecords_eq,
      filterMap_cons, filterMap_append,
      filterMap_body (fun _ mem => (marks_of_mem_body mem).1) seals_of_unmarked]
    rfl
  | _ => rfl

/-- An entry opens its own height, unless it is a refused batch. -/
theorem Entry.records_opens {entry : Entry} (kept : entry.isRefused = false) :
    entry.records.filterMap opens = entry.height?.toList := by
  cases entry with
  | pin | cutover => rfl
  | refused outcome => cases kept
  | block settled =>
    simp only [Entry.records, SettledBlock.records, SettledBlock.opening, openingRecords_eq,
      filterMap_cons, filterMap_append,
      filterMap_body (fun _ mem => (marks_of_mem_body mem).1) opens_of_unmarked]
    rfl

/-- What each entry gives of its own height, a ledger gives of the heights it settles. -/
theorem ledgerRecords_heights {f : Record → Option Nat}
    (own : ∀ entry ∈ entries, entry.records.filterMap f = entry.height?.toList) :
    (ledgerRecords entries).filterMap f = settledHeights entries := by
  induction entries with
  | nil => rfl
  | cons entry entries ih =>
    have heights : settledHeights (entry :: entries)
        = entry.height?.toList ++ settledHeights entries := by
      cases height : entry.height? <;> simp [settledHeights, height]
    rw [heights, ledgerRecords, flatMap_cons, filterMap_append, own entry mem_cons_self]
    exact congrArg _ (ih fun e mem => own e (mem_cons_of_mem _ mem))

/-- A ledger seals the heights it settles. -/
theorem ledgerRecords_seals (entries : List Entry) :
    (ledgerRecords entries).filterMap seals = settledHeights entries :=
  ledgerRecords_heights fun entry _ => entry.records_seals

/-- A block in flight has no seal. -/
theorem InFlight.unsealed (flight : InFlight entries tail) : ∀ record ∈ tail, record.seals = none := by
  intro record mem
  rcases flight.shape with rfl | ⟨height, frame, source, body, rfl, unmarked, -⟩
  · cases mem
  · rcases mem_cons.mp mem with rfl | mem
    · rfl
    · exact record.seals_of_unmarked (unmarked record mem).1

/-- Every seal of a ledger follows the block record of its height. -/
theorem ledgerRecords_opened (kept : Unrefused entries)
    (unsealed : ∀ record ∈ tail, record.seals = none) {i : Nat}
    (sealed : (ledgerRecords entries ++ tail)[i]?.bind seals = some height) :
    ∃ j < i, (ledgerRecords entries ++ tail)[j]?.bind opens = some height := by
  induction entries generalizing i with
  | nil =>
    obtain ⟨record, at_i, seals⟩ := Option.bind_eq_some_iff.mp sealed
    rw [unsealed record (mem_of_getElem? at_i)] at seals
    cases seals
  | cons entry entries ih =>
    rw [ledgerRecords_cons] at sealed ⊢
    rcases Nat.lt_or_ge i entry.records.length with within | past
    · -- the seal of this entry: its block record is the entry's first
      rw [getElem?_append_left within] at sealed
      obtain ⟨record, at_i, seals⟩ := Option.bind_eq_some_iff.mp sealed
      have sealsAll := entry.records_seals
      have settles : entry.height? = some height := by
        have mem := mem_filterMap.mpr ⟨record, mem_of_getElem? at_i, seals⟩
        rw [sealsAll] at mem
        simpa using mem
      cases entry with
      | pin | cutover => cases settles
      | refused outcome => exact absurd (kept _ mem_cons_self) (by simp [isRefused])
      | block settled =>
        have first : ∃ rest, (block settled).records
            = .block settled.outcome.height settled.frame settled.source :: rest := by
          exact ⟨_, rfl⟩
        obtain ⟨rest, first⟩ := first
        refine ⟨0, ?_, ?_⟩
        · rcases Nat.eq_zero_or_pos i with rfl | pos
          · cases at_i
            cases seals
          · exact pos
        · exact settles
    · rw [getElem?_append_right past] at sealed
      obtain ⟨j, before, opened⟩ := ih (fun e mem => kept e (mem_cons_of_mem _ mem)) sealed
      refine ⟨j + entry.records.length, by omega, ?_⟩
      rw [getElem?_append_right (by omega), Nat.add_sub_cancel]
      exact opened

variable {journal : Journal}

/-- A ledger without refused batches is accepted. -/
theorem Ledgered.accepted (ledger : Ledgered entries tail journal.records)
    (kept : Unrefused entries) : Accepted C O journal := by
  have flight := ledger.inFlight.shape
  have unsealed := ledger.inFlight.unsealed
  have opens := ledgerRecords_heights fun entry mem => records_opens (kept entry mem)
  refine ⟨fun i height sealed => ?_, ⟨?_, ?_⟩, ?_, ?_⟩
  · rw [ledger.records_eq] at sealed ⊢
    exact ledgerRecords_opened kept unsealed sealed
  · rw [ledger.records_eq, filterMap_append, opens]
    rcases flight with rfl | ⟨height, frame, source, body, rfl, unmarked, above⟩
    · simpa using ledger.increasing
    have silent := filterMap_body (fun record mem => (unmarked record mem).1) opens_of_unmarked
    rw [filterMap_cons, silent, pairwise_append]
    refine ⟨ledger.increasing, pairwise_singleton _ _, ?_⟩
    intro below mem h mem'
    obtain ⟨entry, mem, settles⟩ := mem_filterMap.mp mem
    rw [mem_singleton.mp mem']
    exact above entry mem below settles
  · have silent : tail.filterMap seals = [] := by
      rw [filterMap_eq_nil_iff]
      exact unsealed
    rw [ledger.records_eq, filterMap_append, ledgerRecords_seals, silent, append_nil]
    exact ledger.increasing
  · intro crypto realize manifest code host manifestHeight
    exact Recovery.recover_ledger crypto realize (.reopen journal manifestHeight) ledger kept manifest
      code host
  · intro manifestHeight after upTo limit range below
    exact readFinalizedFrames_ledger ledger kept manifestHeight range below

/-- Two entries that settle the same height are one. -/
theorem settledHeights_unique (increasing : (settledHeights entries).Pairwise (· < ·)) {a b : Entry}
    (mem : a ∈ entries) (mem' : b ∈ entries) (settles : a.height? = some height)
    (settles' : b.height? = some height) : a = b := by
  rw [settledHeights, pairwise_filterMap] at increasing
  obtain ⟨i, within, rfl⟩ := mem_iff_getElem.mp mem
  obtain ⟨j, within', rfl⟩ := mem_iff_getElem.mp mem'
  have ordered := pairwise_iff_getElem.mp increasing
  rcases Nat.lt_trichotomy i j with before | rfl | later
  · exact absurd (ordered i j within within' before height settles height settles') (lt_irrefl _)
  · rfl
  · exact absurd (ordered j i within' within later height settles' height settles) (lt_irrefl _)

/-- A refused batch leaves a seal that no block record precedes. -/
theorem Ledgered.unrefused (ledger : Ledgered entries tail journal.records)
    (accepted : Accepted C O journal) : Unrefused entries := by
  intro entry mem
  cases entry with
  | pin | cutover | block => rfl
  | refused outcome =>
  have sealed : .sealed outcome ∈ journal.records := by
    rw [ledger.records_eq]
    exact mem_append_left _ (mem_flatMap.mpr ⟨_, mem, mem_singleton_self _⟩)
  obtain ⟨i, at_i⟩ := mem_iff_getElem?.mp sealed
  obtain ⟨j, -, opens⟩ := accepted.opened i outcome.height (by rw [at_i]; rfl)
  obtain ⟨record, at_j, opens⟩ := Option.bind_eq_some_iff.mp opens
  have found := mem_of_getElem? at_j
  rw [ledger.records_eq, mem_append] at found
  rcases found with found | found
  · -- a block entry of the refused height would be the refused entry
    obtain ⟨other, mem', found⟩ := mem_flatMap.mp found
    cases kept : other.isRefused with
    | true =>
      cases other with
      | refused outcome' =>
        rw [mem_singleton.mp found] at opens
        cases opens
      | _ => cases kept
    | false =>
      have settles : other.height? = some outcome.height := by
        have mem := mem_filterMap.mpr ⟨record, found, opens⟩
        rw [records_opens kept] at mem
        simpa using mem
      have same := settledHeights_unique ledger.increasing mem' mem settles rfl
      rw [same] at kept
      cases kept
  · rcases ledger.inFlight.shape with rfl | ⟨height, frame, source, body, rfl, unmarked, above⟩
    · cases found
    rcases mem_cons.mp found with rfl | found
    · cases opens
      exact absurd (above _ mem _ rfl) (lt_irrefl _)
    · rw [record.opens_of_unmarked (unmarked record found).1] at opens
      cases opens

end Accepted

/-! ## Every crash of a run -/

variable (crypto : FrameCrypto) (realize : Recovery.Realize C O)

/-- **Every crash of a run leaves an accepted journal if and only if no delivery of the run repeats a
batch of the replay window.** Of a crash between a block record and its seal, a range that reaches the block is
left out of this. -/
theorem runLane_recoverable_iff {entries : List Entry} (start : OrderedNode C O Store)
    (holds : Holds entries start) (unrefused : Unrefused entries) (events : List LaneEvent) :
    (∀ crashed,
      crashed <+: (runLane (journaledLane crypto realize) events start).sink.journal.records →
        Accepted C O ⟨start.sink.journal.start, crashed⟩) ↔
      FreshRun (journaledLane crypto realize) events start := by
  obtain ⟨more, refused, tail, ledger, -⟩ := runLane_ledgered crypto realize events holds
  refine ⟨fun accepted => ?_, fun fresh crashed cut => ?_⟩
  · have whole : Ledgered (entries ++ more) tail (Journal.mk start.sink.journal.start
        (runLane (journaledLane crypto realize) events start).sink.journal.records).records := ledger
    exact refused.mp (unrefused_append.mp (whole.unrefused (accepted _ List.prefix_rfl))).2
  · obtain ⟨entries', tail', within, left⟩ := ledger.crash cut
    have kept := unrefused_append.mpr ⟨unrefused, refused.mpr fresh⟩
    exact left.accepted fun entry mem => kept entry (within.subset mem)

/-- A lane over the tallies whose code never changes and whose frames are their own ids. -/
def tallyCrypto : FrameCrypto := ⟨id, fun _ _ => true, fun _ _ _ _ _ => true⟩

/-- The tallies never change their code. -/
def tallyRealize : Recovery.Realize Nat Nat := fun _ code host => .ok (code, host)

/-- A node over the tallies and an empty journal. -/
def tallyNode : OrderedNode Nat Nat Store :=
  .resume tallyHost tallyStart (.reopen ⟨0, []⟩ none) none 0

theorem runLane_recoverable_iff_tally :
    Accepted Nat Nat ⟨0, (runLane (journaledLane tallyCrypto tallyRealize)
      [.drain [(1, encodeBatch [])], .drain [(2, encodeBatch [[]])]] tallyNode).sink.journal.records.dropLast⟩ :=
  (runLane_recoverable_iff tallyCrypto tallyRealize tallyNode
    (⟨rfl, List.Pairwise.nil, fun _ mem => by cases mem⟩ : Holds [] tallyNode)
    (fun _ mem => by cases mem) [.drain [(1, encodeBatch [])], .drain [(2, encodeBatch [[]])]]).mpr
    ⟨⟨rfl, trivial⟩, ⟨rfl, trivial⟩, trivial⟩ _ (List.dropLast_prefix _)

/-- Why a run was refused, if it was. -/
def refusal {ε α : Type} : Except ε α → Option ε
  | .error e => some e
  | .ok _ => none

/-- The journal of a batch delivered twice: the second delivery is sealed without a block. -/
def repeatedJournal : List Record := (runLane (journaledLane tallyCrypto tallyRealize)
  [.drain [(1, encodeBatch []), (2, encodeBatch [])]] tallyNode).sink.journal.records

/-- The journal of one batch, cut off before its seal. -/
def unsealedJournal : List Record := (runLane (journaledLane tallyCrypto tallyRealize)
  [.drain [(1, encodeBatch [])]] tallyNode).sink.journal.records.dropLast

/-- Neither reader accepts the repeated batch, and a peer that asks for the unsealed block finds the journal
corrupt. -/
theorem runLane_repeated_corrupt :
    refusal (Recovery.recover tallyCrypto tallyRealize ⟨none, 0, 0, [], [], [], [], []⟩ tallyHost
      tallyStart (.reopen ⟨0, repeatedJournal⟩ none)).1
        = some (.corrupt "seal at height 2 without its block record") ∧
    refusal (readFinalizedFrames (.reopen ⟨0, repeatedJournal⟩ none) 0 2 10)
      = some (.corrupt "seal at height 2 without its block record") ∧
    refusal (readFinalizedFrames (.reopen ⟨0, unsealedJournal⟩ none) 0 1 10)
      = some (.corrupt "block 1 in requested range is missing its seal") := by
  decide +kernel

end Ducktape
