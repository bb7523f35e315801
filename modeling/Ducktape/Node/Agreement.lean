import Ducktape.Host.Isolation
import Ducktape.Node.Inbox
import Ducktape.Node.Stream

/-! # Agreement below the drain

Peers of one epoch learn of the same finalizations, each in its own order and with payloads arriving when
they may, drain them, and may restart. A payload is its digest's (`payload`); the finalizations are listed
by view, one digest at most at each, but a digest may be finalized at several.

The inbox drops a digest it recorded before, so which of a digest's views reaches the node depends on
which the peer records first. Peers that record, since their last start, the finalizations of one digest
lowest view first, settle the same batches in the same way (`agreement_of_lowestFirst`): both follow the
canonical run over the first finalization of each digest. Peers that do not, need not
(`disagreement_tally`). -/

namespace Ducktape

open Lib OrderedNode List Inbox

variable {C O J Digest : Type}

/-! ## What a peer settled -/

/-- A settled batch: its height, its bytes, and the disposition sealed. -/
structure Settlement where
  height : Nat
  frame : Bytes
  disposition : Disposition
  deriving DecidableEq

/-- What the sink seals in one delivery. -/
def sealedIn (L : Lane C O J) (delivery : Nat × Bytes) (node : NotedNode C O J) :
    List Settlement :=
  ((deliver L.noting delivery.1 delivery.2 node).2.sink.2.drop node.sink.2.length).map
    fun outcome => ⟨outcome.height, delivery.2, outcome.disposition⟩

/-- What the sink seals over deliveries, one after another. -/
def sealedBy (L : Lane C O J) : List (Nat × Bytes) → NotedNode C O J → List Settlement
  | [], _ => []
  | delivery :: rest, node =>
    sealedIn L delivery node ++ sealedBy L rest (deliver L.noting delivery.1 delivery.2 node).2

/-! ## Peers -/

/-- A restart: recovery gives back the state as of the last sealed height, where the node resumes, and the
driver arms what it had armed. -/
def OrderedNode.reboot (node : OrderedNode C O J) : OrderedNode C O J :=
  { (resume node.code node.host node.sink (node.appliedFloor.map fun height => ⟨height, node.rootHash⟩)
      node.viewBase).seedReplayWindow node.replayWindow with
    viewCeiling := node.viewCeiling
    watchModule := node.watchModule
    timePolicy := node.timePolicy }

/-- A node with its inbox. -/
structure Peer (C O J Digest : Type) where
  inbox : Inbox Digest
  node : NotedNode C O J
  /-- The finalizations recorded since the last start. -/
  recorded : List (Nat × Digest)
  /-- What it settled, oldest first. -/
  settled : List Settlement

section Run

variable [DecidableEq Digest] (L : Lane C O J) (payload : Digest → Bytes) (finalizations : List (Nat × Digest))

/-- Has the peer recorded the finalization, or settled past it before it last started? -/
def Peer.knows (peer : Peer C O J Digest) (item : Nat × Digest) : Prop :=
  peer.node.resumed item.1 = true ∨ item ∈ peer.recorded

/-- No finalization below a view the inbox would release is still unrecorded. -/
def Peer.GapFree (peer : Peer C O J Digest) : Prop :=
  ∀ delivery ∈ peer.inbox.drain.1, ∀ item ∈ finalizations, item.1 < delivery.1 → peer.knows item

instance (peer : Peer C O J Digest) (item : Nat × Digest) : Decidable (peer.knows item) :=
  inferInstanceAs (Decidable (_ ∨ _))

instance (peer : Peer C O J Digest) : Decidable (peer.GapFree finalizations) :=
  inferInstanceAs (Decidable (∀ delivery ∈ peer.inbox.drain.1, ∀ item ∈ finalizations,
    item.1 < delivery.1 → peer.knows item))

/-- The peer restarts from `node`. -/
def Peer.restart (peer : Peer C O J Digest) (node : NotedNode C O J)
    (settled : List Settlement) : Peer C O J Digest :=
  ⟨Inbox.empty, node.reboot, [], peer.settled ++ settled⟩

/-- The peers reached from `start`, where a finalization is recorded only as `rule` allows. -/
inductive Reaches (rule : Peer C O J Digest → Nat × Digest → Prop)
    (start : NotedNode C O J) : Peer C O J Digest → Prop
  | boot : Reaches rule start ⟨Inbox.empty, start, [], []⟩
  /-- The engine reports a finalization: its payload was relayed before, or it is fetched. -/
  | record {peer view digest stored resolver} : Reaches rule start peer → (view, digest) ∈ finalizations →
      rule peer (view, digest) → (∀ bytes, stored = some bytes → bytes = payload digest) →
      (stored.isSome = true ∨ resolver = true) →
      Reaches rule start { peer with
        inbox := (peer.inbox.record view digest stored resolver).2
        recorded := peer.recorded ++ [(view, digest)] }
  /-- A payload is fetched. -/
  | fill {peer} (digest : Digest) : Reaches rule start peer →
      Reaches rule start { peer with inbox := peer.inbox.fillFetched digest (payload digest) }
  /-- A drain takes `handled` off the queue. -/
  | drain {peer handled} : Reaches rule start peer → peer.GapFree finalizations →
      survives L.noting (peer.node.deferred ++ peer.inbox.drain.1) peer.node = true →
      peer.node.deferred ++ peer.inbox.drain.1
        = handled ++ (drainDelivered L.noting peer.inbox.drain.1 peer.node).2.deferred →
      Reaches rule start { peer with
        inbox := peer.inbox.drain.2
        node := (drainDelivered L.noting peer.inbox.drain.1 peer.node).2
        settled := peer.settled ++ sealedBy L handled peer.node }
  /-- The process stops between two drains, and starts again. -/
  | stop {peer} : Reaches rule start peer → Reaches rule start (peer.restart peer.node [])
  /-- The process stops in a drain, after `handled`, and starts again. -/
  | crash {peer handled rest} : Reaches rule start peer → peer.GapFree finalizations →
      peer.node.deferred ++ peer.inbox.drain.1 = handled ++ rest → GoesOn L.noting handled peer.node →
      Reaches rule start
        (peer.restart (deliverAll L.noting handled peer.node) (sealedBy L handled peer.node))

/-- Everything is recorded, filled and drained. -/
structure Peer.Complete (peer : Peer C O J Digest) : Prop where
  known : ∀ item ∈ finalizations, peer.knows item
  released : peer.inbox.log = []
  drained : peer.node.deferred = []

/-- A node as an epoch or a recovery starts it: it resumes where it applied last. -/
structure OrderedNode.Starts (node : OrderedNode C O J) : Prop where
  deferred : node.deferred = []
  floor : node.resumeFloor = node.appliedFloor
  window : boundWindow node.replayWindow = node.replayWindow

/-- Above the floor it resumed at, a peer records a digest only after all its finalizations at lower views,
those below the floor among them: a digest settled before the start would be sealed again, as a replay. -/
def LowestFirst (peer : Peer C O J Digest) (item : Nat × Digest) : Prop :=
  peer.node.resumed item.1 = false →
    ∀ lower ∈ finalizations, lower.2 = item.2 → lower.1 < item.1 → lower ∈ peer.recorded

instance (peer : Peer C O J Digest) (item : Nat × Digest) : Decidable (LowestFirst finalizations peer item) :=
  inferInstanceAs (Decidable (_ → ∀ lower ∈ finalizations, lower.2 = item.2 → lower.1 < item.1 →
    lower ∈ peer.recorded))

/-! ## The canonical run -/

/-- The first finalization of each digest. -/
def firsts : List (Nat × Digest) :=
  finalizations.filter fun item => finalizations.all fun other => other.2 = item.2 → item.1 ≤ other.1

/-- The finalizations a node settles: first ones it does not skip. -/
def due (start : NotedNode C O J) : List (Nat × Digest) :=
  (firsts finalizations).filter fun item => !start.skips item.1

/-- Finalizations, with their payloads. -/
def frames (items : List (Nat × Digest)) : List (Nat × Bytes) := items.map fun item => (item.1, payload item.2)

variable {item : Nat × Digest}

section Canonical

variable {L payload finalizations} {start node twin : NotedNode C O J}

theorem mem_firsts : item ∈ firsts finalizations ↔
    item ∈ finalizations ∧ ∀ other ∈ finalizations, other.2 = item.2 → item.1 ≤ other.1 := by
  simp [firsts, imp_iff_not_or]

theorem mem_due :
    item ∈ due finalizations start ↔ item ∈ firsts finalizations ∧ start.skips item.1 = false := by
  simp [due]

theorem due_increasing (listed : finalizations.Pairwise (·.1 < ·.1)) :
    (due finalizations start).Pairwise (·.1 < ·.1) :=
  (listed.filter _).filter _

omit [DecidableEq Digest] in
theorem frames_append (items more : List (Nat × Digest)) :
    frames payload (items ++ more) = frames payload items ++ frames payload more :=
  map_append

theorem sealedBy_append (queue more : List (Nat × Bytes)) :
    sealedBy L (queue ++ more) node
      = sealedBy L queue node ++ sealedBy L more (deliverAll L.noting queue node) := by
  induction queue generalizing node with
  | nil => rfl
  | cons delivery queue ih => simp only [cons_append, sealedBy, ih, deliverAll_cons, append_assoc]

variable {delivery : Nat × Bytes}

/-- A delivery that leaves the sink alone seals nothing. -/
theorem sealedIn_skips (core : (deliver L.noting delivery.1 delivery.2 node).2.core = node.core) :
    sealedIn L delivery node = [] := by
  have sink : (deliver L.noting delivery.1 delivery.2 node).2.sink = node.sink :=
    congrArg NodeCore.sink core
  rw [sealedIn, sink, drop_length, map_nil]

theorem sealedIn_core (core : node.core = twin.core)
    (same : SameCore (deliver L.noting delivery.1 delivery.2 node)
      (deliver L.noting delivery.1 delivery.2 twin)) :
    sealedIn L delivery node = sealedIn L delivery twin := by
  have before : node.sink = twin.sink := congrArg NodeCore.sink core
  have after : (deliver L.noting delivery.1 delivery.2 node).2.sink
      = (deliver L.noting delivery.1 delivery.2 twin).2.sink := congrArg NodeCore.sink same.2
  rw [sealedIn, sealedIn, before, after]

omit [DecidableEq Digest] in
/-- Deliveries act on a node as those it does not skip act on any node with its core. -/
theorem deliverAll_twin {skips : Nat → Bool} {items : List (Nat × Digest)}
    (skips_eq : ∀ view, node.skips view = skips view) (core : node.core = twin.core)
    (above : ∀ item ∈ items, skips item.1 = false → twin.skips item.1 = false)
    (goesOn : GoesOn L.noting (frames payload items) node) :
    GoesOn L.noting (frames payload (items.filter fun item => !skips item.1)) twin ∧
      (deliverAll L.noting (frames payload items) node).core
        = (deliverAll L.noting (frames payload (items.filter fun item => !skips item.1)) twin).core ∧
      sealedBy L (frames payload items) node
        = sealedBy L (frames payload (items.filter fun item => !skips item.1)) twin := by
  induction items generalizing node twin with
  | nil => exact ⟨trivial, core, rfl⟩
  | cons item items ih =>
    obtain ⟨passes, goesOn⟩ := goesOn
    have skips_eq' : ∀ view, (deliver L.noting item.1 (payload item.2) node).2.skips view = skips view :=
      fun view => (deliver_skips_eq ..).trans (skips_eq view)
    have above' := fun other mem => above other (mem_cons_of_mem item mem)
    cases skipped : skips item.1 with
    | true =>
      obtain ⟨-, idle⟩ := deliver_skips ((skips_eq _).trans skipped) passes
      obtain ⟨goesOn', core', sealed'⟩ := ih skips_eq' (idle.trans core) above' goesOn
      rw [filter_cons_of_neg (by simp [skipped])]
      refine ⟨goesOn', core', ?_⟩
      rw [frames, map_cons, sealedBy, sealedIn_skips idle, nil_append]
      exact sealed'
    | false =>
      have twin_skips := above item mem_cons_self skipped
      have same : SameCore (deliver L.noting item.1 (payload item.2) node)
          (deliver L.noting item.1 (payload item.2) twin) :=
        deliver_core core (payload item.2) (Bool.or_eq_false_iff.mp ((skips_eq _).trans skipped)).1
          (Bool.or_eq_false_iff.mp twin_skips).1
      obtain ⟨goesOn', core', sealed'⟩ := ih skips_eq' same.2
        (fun other mem new => (deliver_skips_eq ..).trans (above' other mem new)) goesOn
      rw [filter_cons_of_pos (by simp [skipped])]
      refine ⟨⟨same.1 ▸ passes, goesOn'⟩, core', ?_⟩
      rw [frames, map_cons, sealedBy, frames, map_cons, sealedBy, sealedIn_core core same]
      exact congrArg _ sealed'

end Canonical

/-! ## Peers that record lowest view first -/

section Abreast

variable {L payload finalizations} {start : NotedNode C O J}
  {peer : Peer C O J Digest} {done held : List (Nat × Digest)}

variable (L payload start done) in
/-- The node is where the canonical run is after `done`, and settled the same. -/
structure RanTo (node : NotedNode C O J) (settled : List Settlement) : Prop where
  goesOn : GoesOn L.noting (frames payload done) start
  core : node.core = (deliverAll L.noting (frames payload done) start).core
  settled : settled = sealedBy L (frames payload done) start

variable (L payload finalizations start peer done held) in
/-- A peer abreast of the canonical run: it settled `done` and defers `held`. -/
structure Abreast : Prop where
  ran : RanTo L payload start done peer.node peer.settled
  deferred : peer.node.deferred = frames payload held
  /-- What is settled and what is deferred begins the canonical run. -/
  order : done ++ held.filter (fun item => !peer.node.skips item.1) <+: due finalizations start
  floor : ∀ view, start.resumed view = true → peer.node.resumed view = true
  resumed : ∀ item ∈ due finalizations start, peer.node.resumed item.1 = true → item ∈ done
  logged : ∀ item ∈ held ++ peer.inbox.log,
    item ∈ finalizations ∧ (peer.node.resumed item.1 = false → item ∈ firsts finalizations)
  logged_seen : ∀ item ∈ held ++ peer.inbox.log, item.2 ∈ peer.inbox.seen
  done_seen : ∀ item ∈ done, peer.node.resumed item.1 = false → item.2 ∈ peer.inbox.seen
  /-- Nothing is released twice. -/
  unreleased : ∀ item ∈ peer.inbox.log, peer.node.skips item.1 = false → item ∉ done ∧ item ∉ held
  /-- Nothing recorded is lost. -/
  kept : ∀ item ∈ due finalizations start, item.2 ∈ peer.inbox.seen →
    item ∈ done ∨ item ∈ held ∨ item ∈ peer.inbox.log
  recorded : ∀ item ∈ peer.recorded, item.2 ∈ peer.inbox.seen
  addressed : peer.inbox.Addressed payload

omit [DecidableEq Digest] in
/-- Deliveries move neither the base of the epoch nor its ceiling. -/
theorem RanTo.epoch {node : NotedNode C O J} {settled : List Settlement}
    (ran : RanTo L payload start done node settled) :
    node.viewBase = start.viewBase ∧ node.viewCeiling = start.viewCeiling := by
  have base : node.viewBase = _ := congrArg NodeCore.viewBase ran.core
  have ceiling : node.viewCeiling = _ := congrArg NodeCore.viewCeiling ran.core
  rw [base, ceiling]
  exact ⟨deliverAll_keeps (f := viewBase) (fun _ _ _ _ _ _ _ _ _ _ _ => rfl) _,
    deliverAll_keeps (f := viewCeiling) (fun _ _ _ _ _ _ _ _ _ _ _ => rfl) _⟩

variable {node : OrderedNode C O J}

/-- What lies below a resumed view was resumed too. -/
theorem resumed_of_le {low view : Nat} (le : low ≤ view) (resumed : node.resumed view = true) :
    node.resumed low = true := by
  rw [OrderedNode.resumed, Option.any_eq_true] at resumed ⊢
  obtain ⟨floor, held, below⟩ := resumed
  have := of_decide_eq_true below
  exact ⟨floor, held, decide_eq_true (by omega)⟩

theorem deliverAll_window {L : Lane C O J} (queue : List (Nat × Bytes))
    (goesOn : GoesOn L queue node) (window : boundWindow node.replayWindow = node.replayWindow) :
    boundWindow (deliverAll L queue node).replayWindow = (deliverAll L queue node).replayWindow := by
  induction queue generalizing node with
  | nil => exact window
  | cons delivery queue ih =>
    refine ih goesOn.2 ?_
    have leaves := deliver_leaves (L := L) delivery.1 delivery.2 node
    have passes := goesOn.1
    unfold Leaves at leaves
    split at leaves
    · rw [leaves.2.2, boundWindow_boundWindow]
    · rw [leaves.2.2, boundWindow_boundWindow]
    · rw [leaves.2, window]
    · rw [leaves.2, window]
    · rename_i failed
      rw [failed] at passes
      cases passes

/-- A restart keeps the core. -/
theorem reboot_core (window : boundWindow node.replayWindow = node.replayWindow) :
    node.reboot.core = node.core := by
  have floor : Option.map (·.height) (node.appliedFloor.map fun height : Nat =>
      (⟨height, OrderedNode.rootHash node⟩ : FinalizedBlock)) = node.appliedFloor := by
    cases node.appliedFloor <;> rfl
  simp only [core, reboot, resume, seedReplayWindow, floor, nil_append, window]

theorem Abreast.boot (starts : start.Starts) :
    Abreast L payload finalizations start ⟨empty, start, [], []⟩ [] [] where
  ran := ⟨trivial, rfl, rfl⟩
  deferred := starts.deferred
  order := nil_prefix
  floor _ resumed := resumed
  resumed item mem resumed := by
    have above := (mem_due.mp mem).2
    rw [skips, resumed] at above
    cases above
  logged := by simp [empty]
  logged_seen := by simp [empty]
  done_seen := by simp
  unreleased := by simp
  kept := by simp [empty]
  recorded := by simp
  addressed := by simp [Inbox.Addressed, empty]

theorem Abreast.fill (abreast : Abreast L payload finalizations start peer done held) (digest : Digest) :
    Abreast L payload finalizations start
      { peer with inbox := peer.inbox.fillFetched digest (payload digest) } done held :=
  { abreast with addressed := abreast.addressed.fillFetched digest }

theorem Abreast.record (listed : finalizations.Pairwise (·.1 < ·.1))
    (abreast : Abreast L payload finalizations start peer done held) {view : Nat} {digest : Digest}
    {stored : Option Bytes} {resolver : Bool} (mem : (view, digest) ∈ finalizations)
    (lowest : LowestFirst finalizations peer (view, digest))
    (content : ∀ bytes, stored = some bytes → bytes = payload digest)
    (reachable : stored.isSome = true ∨ resolver = true) :
    Abreast L payload finalizations start { peer with
      inbox := (peer.inbox.record view digest stored resolver).2
      recorded := peer.recorded ++ [(view, digest)] } done held := by
  have addressed : (peer.inbox.record view digest stored resolver).2.Addressed payload :=
    abreast.addressed.record content
  by_cases seen : digest ∈ peer.inbox.seen
  · have same : (peer.inbox.record view digest stored resolver).2 = peer.inbox := record_seen seen
    rw [same]
    refine { abreast with recorded := fun item old => ?_ }
    rcases mem_append.mp old with old | new
    · exact abreast.recorded item old
    · rw [mem_singleton.mp new]
      exact seen
  · have first : peer.node.resumed view = false → (view, digest) ∈ firsts finalizations := by
      refine fun above => mem_firsts.mpr ⟨mem, fun other held same => ?_⟩
      by_contra lower
      have recorded := abreast.recorded other (lowest above other held same (Nat.lt_of_not_le lower))
      rw [same] at recorded
      exact seen recorded
    have free : ∀ other, (view, other) ∉ peer.inbox.log := by
      intro other logged
      have same : (view, other) = (view, digest) :=
        eq_of_key_eq listed (abreast.logged _ (mem_append_right _ logged)).1 mem rfl
      have recorded := abreast.logged_seen _ (mem_append_right _ logged)
      rw [same] at recorded
      exact seen recorded
    obtain ⟨log, seen_eq⟩ := record_new seen free reachable
    generalize (peer.inbox.record view digest stored resolver).2 = inbox at addressed log seen_eq
    have log_mem : ∀ item, item ∈ inbox.log ↔ item = (view, digest) ∨ item ∈ peer.inbox.log :=
      fun item => log ▸ mem_insertView free item
    have grows : ∀ {digest}, digest ∈ peer.inbox.seen → digest ∈ inbox.seen :=
      fun old => seen_eq ▸ Finset.mem_insert_of_mem old
    have enters : digest ∈ inbox.seen := seen_eq ▸ Finset.mem_insert_self ..
    refine { abreast with
      addressed := addressed
      logged := fun item logged => ?logged
      logged_seen := fun item logged => ?logged_seen
      done_seen := fun item settled above => grows (abreast.done_seen item settled above)
      unreleased := fun item logged above => ?unreleased
      kept := fun item due recorded => ?kept
      recorded := fun item old => ?recorded }
    case logged =>
      rcases mem_append.mp logged with old | logged
      · exact abreast.logged item (mem_append_left _ old)
      rcases (log_mem item).mp logged with rfl | old
      · exact ⟨mem, first⟩
      · exact abreast.logged item (mem_append_right _ old)
    case logged_seen =>
      rcases mem_append.mp logged with old | logged
      · exact grows (abreast.logged_seen item (mem_append_left _ old))
      rcases (log_mem item).mp logged with rfl | old
      · exact enters
      · exact grows (abreast.logged_seen item (mem_append_right _ old))
    case unreleased =>
      rcases (log_mem item).mp logged with rfl | old
      · have resumed := (Bool.or_eq_false_iff.mp above).1
        exact ⟨fun settled => seen (abreast.done_seen _ settled resumed),
          fun deferred => seen (abreast.logged_seen _ (mem_append_left _ deferred))⟩
      · exact abreast.unreleased item old above
    case kept =>
      rcases Finset.mem_insert.mp (seen_eq ▸ recorded) with same | old
      · have least := mem_firsts.mp (mem_due.mp due).1
        have low := least.2 _ mem same.symm
        cases above : peer.node.resumed view with
        | true => exact .inl (abreast.resumed item due (resumed_of_le low above))
        | false =>
          -- the one first finalization of this digest
          have same' : item = (view, digest) :=
            eq_of_key_eq listed least.1 mem (low.antisymm ((mem_firsts.mp (first above)).2 item least.1 same))
          exact .inr (.inr ((log_mem item).mpr (.inl same')))
      · rcases abreast.kept item due old with settled | deferred | logged
        · exact .inl settled
        · exact .inr (.inl deferred)
        · exact .inr (.inr ((log_mem item).mpr (.inr logged)))
    case recorded =>
      rcases mem_append.mp old with old | new
      · exact grows (abreast.recorded item old)
      · rw [mem_singleton.mp new]
        exact enters

section

variable (abreast : Abreast L payload finalizations start peer done held)
include abreast

theorem Abreast.skips_eq (view : Nat) :
    peer.node.skips view = (peer.node.resumed view || start.viewCeiling.any (· ≤ view)) := by
  rw [skips, abreast.ran.epoch.2]

/-- What the peer does not skip, no node of the epoch skips. -/
theorem Abreast.start_skips {view : Nat} (above : peer.node.skips view = false) :
    start.skips view = false := by
  obtain ⟨above, below⟩ := Bool.or_eq_false_iff.mp ((abreast.skips_eq view).symm.trans above)
  refine Bool.or_eq_false_iff.mpr ⟨Bool.eq_false_of_not_eq_true fun resumed => ?_, below⟩
  exact absurd (above.symm.trans (abreast.floor view resumed)) Bool.false_ne_true

/-- What is due is skipped only when it is settled. -/
theorem Abreast.due_skips (mem : item ∈ due finalizations start) (open' : item ∉ done) :
    peer.node.skips item.1 = false := by
  rw [abreast.skips_eq]
  refine Bool.or_eq_false_iff.mpr ⟨Bool.eq_false_of_not_eq_true fun resumed => ?_, ?_⟩
  · exact open' (abreast.resumed item mem resumed)
  · exact (Bool.or_eq_false_iff.mp (mem_due.mp mem).2).2

end

section

variable (listed : finalizations.Pairwise (·.1 < ·.1))
include listed

/-- What the inbox releases goes on with the canonical run. -/
theorem Abreast.release (abreast : Abreast L payload finalizations start peer done held)
    (gapFree : peer.GapFree finalizations) {released : List (Nat × Digest)}
    (log : peer.inbox.log = released ++ peer.inbox.drain.2.log)
    (out : peer.inbox.drain.1 = frames payload released) :
    done ++ (held ++ released).filter (fun item => !peer.node.skips item.1) <+: due finalizations start := by
  rw [filter_append, ← append_assoc]
  have ascending := log ▸ peer.inbox.ascending
  obtain ⟨released_ascending, -, below⟩ := pairwise_append.mp ascending
  have split : ∀ item, item ∈ released.filter (fun item => !peer.node.skips item.1) ↔
      item ∈ released ∧ peer.node.skips item.1 = false := by simp
  refine prefix_append_of_downward (due_increasing listed) abreast.order (released_ascending.filter _)
    (fun item mem => ?_) (fun item mem => ?_) fun item mem other otherDue lt => ?_
  · obtain ⟨mem, above⟩ := (split item).mp mem
    exact mem_due.mpr ⟨(abreast.logged item (mem_append_right _ (log ▸ mem_append_left _ mem))).2
      (Bool.or_eq_false_iff.mp above).1, abreast.start_skips above⟩
  · obtain ⟨mem, above⟩ := (split item).mp mem
    obtain ⟨settled, deferred⟩ := abreast.unreleased item (log ▸ mem_append_left _ mem) above
    rw [mem_append, not_or]
    exact ⟨settled, fun held => deferred (mem_of_mem_filter held)⟩
  · obtain ⟨mem, -⟩ := (split item).mp mem
    by_cases settled : other ∈ done
    · exact .inl (mem_append_left _ settled)
    have above := abreast.due_skips otherDue settled
    -- the view below is known, and was neither resumed nor settled: so it is deferred, or released now
    have known := gapFree (item.1, payload item.2) (out ▸ mem_map.mpr ⟨item, mem, rfl⟩) other
      (mem_firsts.mp (mem_due.mp otherDue).1).1 lt
    rcases known with resumed | recorded
    · exact absurd (abreast.resumed other otherDue resumed) settled
    rcases abreast.kept other otherDue (abreast.recorded other recorded) with done | deferred | logged
    · exact absurd done settled
    · exact .inl (mem_append_right _ (mem_filter.mpr ⟨deferred, by simp [above]⟩))
    rw [log] at logged
    rcases mem_append.mp logged with now | later
    · exact .inr ((split other).mpr ⟨now, above⟩)
    · exact absurd lt (Nat.lt_asymm (below item mem other later))

/-- **What a drain or a crash handles goes on with the canonical run.** -/
theorem Abreast.handle (abreast : Abreast L payload finalizations start peer done held)
    (gapFree : peer.GapFree finalizations) {handled rest : List (Nat × Bytes)}
    (queue : peer.node.deferred ++ peer.inbox.drain.1 = handled ++ rest)
    (goesOn : GoesOn L.noting handled peer.node) :
    ∃ released items more, peer.inbox.log = released ++ peer.inbox.drain.2.log ∧
      held ++ released = items ++ more ∧ handled = frames payload items ∧ rest = frames payload more ∧
      (done ++ items.filter (fun item => !peer.node.skips item.1))
        ++ more.filter (fun item => !peer.node.skips item.1) <+: due finalizations start ∧
      RanTo L payload start (done ++ items.filter fun item => !peer.node.skips item.1)
        (deliverAll L.noting handled peer.node) (peer.settled ++ sealedBy L handled peer.node) := by
  obtain ⟨released, log, out⟩ := drain_releases abreast.addressed
  have order := abreast.release listed gapFree log out
  rw [abreast.deferred, out] at queue
  obtain ⟨items, more, split, rfl, rfl⟩ := map_eq_append_iff.mp ((frames_append held released).trans queue)
  rw [split, filter_append, ← append_assoc] at order
  have twin_skips : ∀ view, (deliverAll L.noting (frames payload done) start).skips view = start.skips view :=
    fun view => deliverAll_keeps (f := (·.skips view)) (fun _ _ _ _ _ _ _ _ _ _ _ => rfl) _
  obtain ⟨goesOn', core, settled⟩ := deliverAll_twin (fun view => rfl)
    abreast.ran.core (fun item _ above => (twin_skips _).trans (abreast.start_skips above)) goesOn
  refine ⟨released, items, more, log, split, rfl, rfl, order, ?_, ?_, ?_⟩
  · rw [frames_append]
    exact goesOn_append.mpr ⟨abreast.ran.goesOn, goesOn'⟩
  · rw [frames_append, deliverAll_append]
    exact core
  · rw [frames_append, sealedBy_append, abreast.ran.settled]
    exact congrArg _ settled

theorem Abreast.drain
    (abreast : Abreast L payload finalizations start peer done held) (gapFree : peer.GapFree finalizations)
    (unfailing : survives L.noting (peer.node.deferred ++ peer.inbox.drain.1) peer.node = true)
    {handled : List (Nat × Bytes)} (queue : peer.node.deferred ++ peer.inbox.drain.1
      = handled ++ (drainDelivered L.noting peer.inbox.drain.1 peer.node).2.deferred) :
    ∃ done held, Abreast L payload finalizations start { peer with
      inbox := peer.inbox.drain.2
      node := (drainDelivered L.noting peer.inbox.drain.1 peer.node).2
      settled := peer.settled ++ sealedBy L handled peer.node } done held := by
  obtain ⟨handled', queue', goesOn, core, resume⟩ := drainDelivered_survives unfailing
  obtain rfl : handled = handled' := append_cancel_right (queue.symm.trans queue')
  obtain ⟨released, items, more, log, split, rfl, deferred, order, ran⟩ :=
    abreast.handle listed gapFree queue goesOn
  have addressed := abreast.addressed.drain
  have later := (pairwise_append.mp (log ▸ peer.inbox.ascending)).2.2
  generalize (drainDelivered L.noting peer.inbox.drain.1 peer.node).2 = node at core resume deferred
  have stands : RanTo L payload start _ node _ := ⟨ran.goesOn, core.trans ran.core, ran.settled⟩
  have resumed_eq : ∀ view, node.resumed view = peer.node.resumed view := fun view => by
    rw [OrderedNode.resumed, OrderedNode.resumed, resume, stands.epoch.1, abreast.ran.epoch.1]
  have skips_eq : ∀ view, node.skips view = peer.node.skips view := fun view => by
    rw [skips, skips, resumed_eq, stands.epoch.2, abreast.ran.epoch.2]
  -- what was deferred or released is handled now or deferred again
  have from_queue : ∀ item ∈ items ++ more, item ∈ held ∨ item ∈ released := fun item mem =>
    mem_append.mp (split ▸ mem)
  have queued : ∀ item, item ∈ held ∨ item ∈ released → item ∈ items ∨ item ∈ more := fun item mem =>
    mem_append.mp (split ▸ mem_append.mpr mem)
  have within : ∀ item, item ∈ items ∨ item ∈ more ++ peer.inbox.drain.2.log → item ∈ held ++ peer.inbox.log := by
    intro item mem
    rwa [log, ← append_assoc, split, append_assoc, mem_append]
  refine ⟨_, more, stands, deferred, ?_, fun view start => ?_, fun item due resumed => ?_,
    fun item mem => ?_, fun item mem => ?_, fun item mem above => ?_, fun item mem above => ?_,
    fun item due seen => ?_, abreast.recorded, addressed⟩
  · simp only [skips_eq]
    exact order
  · exact (resumed_eq view).trans (abreast.floor view start)
  · exact mem_append_left _ (abreast.resumed item due ((resumed_eq _).symm.trans resumed))
  · rw [resumed_eq]
    exact abreast.logged item (within item (.inr mem))
  · exact abreast.logged_seen item (within item (.inr mem))
  · rcases mem_append.mp mem with settled | now
    · exact abreast.done_seen item settled ((resumed_eq _).symm.trans above)
    · exact abreast.logged_seen item (within item (.inl (mem_of_mem_filter now)))
  · obtain ⟨settled, deferred⟩ := abreast.unreleased item (log ▸ mem_append_right _ mem)
      ((skips_eq _).symm.trans above)
    have unqueued : item ∉ items ++ more := fun queued =>
      (from_queue item queued).elim deferred fun now => absurd (later item now item mem) (lt_irrefl _)
    rw [mem_append, not_or] at unqueued ⊢
    exact ⟨⟨settled, fun now => unqueued.1 (mem_of_mem_filter now)⟩, unqueued.2⟩
  · by_cases settled : item ∈ done
    · exact .inl (mem_append_left _ settled)
    have above := abreast.due_skips due settled
    have handles : item ∈ held ∨ item ∈ released → item ∈ done ++ items.filter
        (fun item => !peer.node.skips item.1) ∨ item ∈ more := fun mem =>
      (queued item mem).imp
        (fun now => mem_append_right _ (mem_filter.mpr ⟨now, by simp [above]⟩)) id
    rcases abreast.kept item due seen with done | deferred | logged
    · exact absurd done settled
    · exact (handles (.inl deferred)).imp id .inl
    · rcases mem_append.mp (log ▸ logged) with now | later
      · exact (handles (.inr now)).imp id .inl
      · exact .inr (.inr later)

/-- A peer restarts where the canonical run is. -/
theorem RanTo.restart (starts : start.Starts) {node : NotedNode C O J}
    {settled : List Settlement} (ran : RanTo L payload start done node (peer.settled ++ settled))
    (order : done <+: due finalizations start) :
    Abreast L payload finalizations start (peer.restart node settled) done [] := by
  have window : boundWindow node.replayWindow = node.replayWindow := by
    have same : node.replayWindow = _ := congrArg NodeCore.replayWindow ran.core
    rw [same]
    exact deliverAll_window _ ran.goesOn starts.window
  have core := (reboot_core window).trans ran.core
  have resumed_iff : ∀ view, node.reboot.resumed view = true ↔
      start.resumed view = true ∨ ∃ item ∈ done, view ≤ item.1 := by
    intro view
    have above : ∀ d ∈ frames payload done, start.skips d.1 = false :=
      forall_mem_map.mpr fun item mem => (mem_due.mp (order.subset mem)).2
    have floored := deliverAll_floor above ran.goesOn view
    have floor : node.appliedFloor = _ := congrArg NodeCore.appliedFloor ran.core
    have resume : node.reboot.resumeFloor = node.appliedFloor := by
      simp only [reboot]
      cases node.appliedFloor <;> rfl
    have same : node.reboot.viewBase = start.viewBase := ran.epoch.1
    rw [resumed, resume, same, floor]
    refine floored.trans ?_
    rw [resumed, starts.floor]
    simp [frames]
  have resumes : ∀ item ∈ done, node.reboot.resumed item.1 = true := fun item mem =>
    (resumed_iff _).mpr (.inr ⟨item, mem, le_rfl⟩)
  refine ⟨⟨ran.goesOn, core, ran.settled⟩, rfl, ?_, fun view resumed => (resumed_iff view).mpr (.inl resumed),
    fun item due resumed => ?_, by simp [Peer.restart, empty], by simp [Peer.restart, empty],
    fun item mem above => ?_, by simp [Peer.restart, empty], by simp [Peer.restart, empty],
    by simp [Peer.restart], by simp [Peer.restart, Inbox.Addressed, empty]⟩
  · simpa using order
  · rcases (resumed_iff _).mp resumed with resumed | ⟨other, mem, le⟩
    · have above := (mem_due.mp due).2
      rw [skips, resumed] at above
      cases above
    · obtain ⟨rest, split⟩ := order
      have increasing : (done ++ rest).Pairwise (·.1 < ·.1) := split ▸ due_increasing listed
      rw [← split] at due
      refine (mem_append.mp due).resolve_right fun later => ?_
      exact absurd ((pairwise_append.mp increasing).2.2 other mem item later) (Nat.not_lt.mpr le)
  · exact absurd (above.symm.trans (resumes item mem)) Bool.false_ne_true

/-- **Every peer that records lowest view first is abreast of the canonical run.** -/
theorem Reaches.abreast (starts : start.Starts)
    (reaches : Reaches L payload finalizations (LowestFirst finalizations) start peer) :
    ∃ done held, Abreast L payload finalizations start peer done held := by
  induction reaches with
  | boot => exact ⟨[], [], .boot starts⟩
  | record _ mem lowest content reachable ih =>
    obtain ⟨done, held, abreast⟩ := ih
    exact ⟨done, held, abreast.record listed mem lowest content reachable⟩
  | fill digest _ ih =>
    obtain ⟨done, held, abreast⟩ := ih
    exact ⟨done, held, abreast.fill digest⟩
  | drain _ gapFree unfailing queue ih =>
    obtain ⟨done, held, abreast⟩ := ih
    exact abreast.drain listed gapFree unfailing queue
  | stop _ ih =>
    obtain ⟨done, held, abreast⟩ := ih
    refine ⟨done, [], RanTo.restart listed starts ?_ ((prefix_append _ _).trans abreast.order)⟩
    rw [append_nil]
    exact abreast.ran
  | crash _ gapFree queue goesOn ih =>
    obtain ⟨done, held, abreast⟩ := ih
    obtain ⟨_, items, more, -, -, -, -, order, ran⟩ := abreast.handle listed gapFree queue goesOn
    exact ⟨_, [], ran.restart listed starts ((prefix_append _ _).trans order)⟩

/-- A complete peer settled all that is due. -/
theorem Abreast.complete (abreast : Abreast L payload finalizations start peer done held)
    (complete : peer.Complete finalizations) : done = due finalizations start := by
  have empty : held = [] := map_eq_nil_iff.mp (abreast.deferred.symm.trans complete.drained)
  have within : done <+: due finalizations start := (prefix_append _ _).trans abreast.order
  refine eq_of_increasing ((due_increasing listed).sublist within.sublist) (due_increasing listed)
    fun item => ⟨fun mem => within.subset mem, fun mem => ?_⟩
  rcases complete.known item (mem_firsts.mp (mem_due.mp mem).1).1 with resumed | recorded
  · exact abreast.resumed item mem resumed
  rcases abreast.kept item mem (abreast.recorded item recorded) with settled | deferred | logged
  · exact settled
  · rw [empty] at deferred
    cases deferred
  · rw [complete.released] at logged
    cases logged

end

end Abreast

/-- **Agreement**: complete peers that, since their last start, recorded the finalizations of one digest
lowest view first, settled the same batches at the same heights in the same way, and remember the same. -/
theorem agreement_of_lowestFirst {start : NotedNode C O J}
    (listed : finalizations.Pairwise (·.1 < ·.1)) (starts : start.Starts) {peer peer' : Peer C O J Digest}
    (reaches : Reaches L payload finalizations (LowestFirst finalizations) start peer)
    (reaches' : Reaches L payload finalizations (LowestFirst finalizations) start peer')
    (complete : peer.Complete finalizations) (complete' : peer'.Complete finalizations) :
    peer.settled = peer'.settled ∧ peer.node.replayWindow = peer'.node.replayWindow := by
  obtain ⟨done, held, abreast⟩ := reaches.abreast listed starts
  obtain ⟨done', held', abreast'⟩ := reaches'.abreast listed starts
  obtain rfl := abreast.complete listed complete
  obtain rfl := abreast'.complete listed complete'
  exact ⟨abreast.ran.settled.trans abreast'.ran.settled.symm,
    congrArg NodeCore.replayWindow (abreast.ran.core.trans abreast'.ran.core.symm)⟩

end Run

/-! ## Peers of tallies -/

/-- A lane of tallies, whose sink takes everything. -/
def tallyLane : Lane Nat Nat Unit where
  crypto := ⟨id, fun _ _ => true, fun _ _ _ _ _ => true⟩
  sink := ⟨fun _ _ => (.ok (), ()), fun _ _ _ _ => (.ok (), ()), fun _ _ _ => (.ok (), ()),
    fun _ _ => (.ok (), ()), fun _ _ _ _ _ => (.ok (), ())⟩
  realize _ code host := .ok (code, host)

/-- A node of tallies at the start of its epoch. -/
def tallyEpoch : OrderedNode Nat Nat (Unit × List BlockSeal) := .resume tallyHost tallyStart ((), []) none 0

/-- Two batches. -/
def tallyPayload (digest : Bool) : Bytes := encodeBatch (if digest then [[]] else [])

/-- A tally peer. -/
abbrev TallyPeer := Peer Nat Nat Unit Bool

/-- A tally peer records a finalization whose payload it has. -/
def TallyPeer.records (peer : TallyPeer) (item : Nat × Bool) : TallyPeer :=
  { peer with
    inbox := (peer.inbox.record item.1 item.2 (some (tallyPayload item.2)) true).2
    recorded := peer.recorded ++ [item] }

/-- A tally peer drains all there is. -/
def TallyPeer.drains (peer : TallyPeer) : TallyPeer :=
  { peer with
    inbox := peer.inbox.drain.2
    node := (drainDelivered tallyLane.noting peer.inbox.drain.1 peer.node).2
    settled := peer.settled ++ sealedBy tallyLane peer.inbox.drain.1 peer.node }

/-- A tally peer stops and starts again. -/
def TallyPeer.restarts (peer : TallyPeer) : TallyPeer := peer.restart peer.node []

/-- A tally peer at its first start. -/
def tallyPeer : TallyPeer := ⟨Inbox.empty, tallyEpoch, [], []⟩

section Tally

variable {finalizations : List (Nat × Bool)} {rule : TallyPeer → Nat × Bool → Prop} {peer : TallyPeer}

theorem Reaches.records (reaches : Reaches tallyLane tallyPayload finalizations rule tallyEpoch peer)
    (item : Nat × Bool) (mem : item ∈ finalizations) (allowed : rule peer item) :
    Reaches tallyLane tallyPayload finalizations rule tallyEpoch (peer.records item) :=
  .record reaches mem allowed (fun _ same => (Option.some.inj same).symm) (.inl rfl)

theorem Reaches.drains (reaches : Reaches tallyLane tallyPayload finalizations rule tallyEpoch peer)
    (gapFree : peer.GapFree finalizations) (queue : peer.node.deferred = [])
    (unfailing : survives tallyLane.noting peer.inbox.drain.1 peer.node = true)
    (rest : (drainDelivered tallyLane.noting peer.inbox.drain.1 peer.node).2.deferred = []) :
    Reaches tallyLane tallyPayload finalizations rule tallyEpoch peer.drains := by
  refine .drain reaches gapFree ?_ ?_
  · rw [queue]
    exact unfailing
  · rw [queue, rest, append_nil]
    rfl

end Tally

/-- One batch, finalized at two views. -/
def twice : List (Nat × Bool) := [(3, false), (7, false)]

theorem disagreement_tally : ∃ peer peer' : TallyPeer,
    Reaches tallyLane tallyPayload twice (fun _ _ => True) tallyEpoch peer ∧
      Reaches tallyLane tallyPayload twice (fun _ _ => True) tallyEpoch peer' ∧
      peer.Complete twice ∧ peer'.Complete twice ∧
      peer.settled.map (·.height) = [3] ∧ peer'.settled.map (·.height) = [7] := by
  have low : (3, false) ∈ twice := by decide
  have high : (7, false) ∈ twice := by decide
  have start : Reaches tallyLane tallyPayload twice (fun _ _ => True) tallyEpoch tallyPeer := .boot
  refine ⟨((tallyPeer.records (3, false)).records (7, false)).drains,
    ((tallyPeer.records (7, false)).records (3, false)).drains, ?_, ?_, ⟨?_, ?_, ?_⟩, ⟨?_, ?_, ?_⟩, ?_, ?_⟩
  · refine ((start.records _ low trivial).records _ high trivial).drains ?_ rfl ?_ ?_ <;> decide +kernel
  · refine ((start.records _ high trivial).records _ low trivial).drains ?_ rfl ?_ ?_ <;> decide +kernel
  all_goals decide +kernel

/-- Two batches, one of them finalized again. -/
def again : List (Nat × Bool) := [(1, false), (2, true), (5, false)]

theorem agreement_of_lowestFirst_tally : ∃ peer peer' : TallyPeer,
    Reaches tallyLane tallyPayload again (LowestFirst again) tallyEpoch peer ∧
      Reaches tallyLane tallyPayload again (LowestFirst again) tallyEpoch peer' ∧
      peer.settled.map (·.height) = [1, 2] ∧ peer.settled = peer'.settled ∧
      peer.node.replayWindow = peer'.node.replayWindow := by
  have start : Reaches tallyLane tallyPayload again (LowestFirst again) tallyEpoch tallyPeer := .boot
  have straight : Reaches tallyLane tallyPayload again (LowestFirst again) tallyEpoch
      (((tallyPeer.records (1, false)).records (2, true)).records (5, false)).drains := by
    refine (((start.records _ ?_ ?_).records _ ?_ ?_).records _ ?_ ?_).drains ?_ rfl ?_ ?_ <;> decide +kernel
  -- the other one stops after the first batch, and records it again
  have stopped : Reaches tallyLane tallyPayload again (LowestFirst again) tallyEpoch
      (tallyPeer.records (1, false)).drains.restarts := by
    refine .stop ((start.records _ ?_ ?_).drains ?_ rfl ?_ ?_) <;> decide +kernel
  have resumed : Reaches tallyLane tallyPayload again (LowestFirst again) tallyEpoch
      ((((tallyPeer.records (1, false)).drains.restarts.records (2, true)).records (1, false)).records
        (5, false)).drains := by
    refine (((stopped.records _ ?_ ?_).records _ ?_ ?_).records _ ?_ ?_).drains ?_ rfl ?_ ?_ <;> decide +kernel
  have starts : tallyEpoch.Starts := by
    refine ⟨rfl, rfl, ?_⟩
    decide +kernel
  refine ⟨_, _, straight, resumed, by decide +kernel, ?_⟩
  refine agreement_of_lowestFirst tallyLane tallyPayload again (by decide) starts straight resumed
    ⟨?_, ?_, ?_⟩ ⟨?_, ?_, ?_⟩ <;> decide +kernel

end Ducktape
