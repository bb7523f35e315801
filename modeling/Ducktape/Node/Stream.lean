import Ducktape.Node.Settled

/-! # Deliveries as a stream

How a node fares with a stream of deliveries does not depend on how the stream was cut into drains. A
delivery acts on a node's `core` alone (`deliver_core`): its code, host and sink, its floors, its replay
window, and what its driver armed. A drain that the process survives hands the node some of its queue,
one delivery after another, and defers the rest (`drainDelivered_survives`).

`Lane.noting` is a lane whose sink also keeps the seals, so that what a node sealed can be read off it. -/

namespace Ducktape

open Lib OrderedNode

variable {C O J : Type}

/-! ## Seals kept -/

/-- A sink that also keeps the seals it took. -/
def BlockSink.noting (sink : BlockSink J) : BlockSink (J × List BlockSeal) where
  pin batch j := ((sink.pin batch j.1).1, ((sink.pin batch j.1).2, j.2))
  preApply height frame prepared j :=
    ((sink.preApply height frame prepared j.1).1, ((sink.preApply height frame prepared j.1).2, j.2))
  witness height witness j :=
    ((sink.witness height witness j.1).1, ((sink.witness height witness j.1).2, j.2))
  sealBlock outcome j := match sink.sealBlock outcome j.1 with
    | (.ok (), store) => (.ok (), (store, j.2 ++ [outcome]))
    | (.error e, store) => (.error e, (store, j.2))
  cutover epoch viewBase participants residents j :=
    ((sink.cutover epoch viewBase participants residents j.1).1,
      ((sink.cutover epoch viewBase participants residents j.1).2, j.2))

/-- A lane that keeps the seals. -/
def Lane.noting (L : Lane C O J) : Lane C O (J × List BlockSeal) where
  crypto := L.crypto
  sink := L.sink.noting
  realize := L.realize

/-- A node of such a lane. -/
abbrev NotedNode (C O J : Type) := OrderedNode C O (J × List BlockSeal)

/-! ## What a delivery acts on -/

/-- What of a node a delivery reads, its resume floor apart, and all it changes that a later delivery
reads. -/
structure NodeCore (C O J : Type) where
  code : Host C O
  host : HostState C
  sink : J
  viewBase : Nat
  viewCeiling : Option Nat
  appliedFloor : Option Nat
  watchModule : Option ModuleId
  replayWindow : List (Nat × FrameId)
  timePolicy : ConsensusTimePolicy

/-- The core of a node. -/
def OrderedNode.core (node : OrderedNode C O J) : NodeCore C O J where
  code := node.code
  host := node.host
  sink := node.sink
  viewBase := node.viewBase
  viewCeiling := node.viewCeiling
  appliedFloor := node.appliedFloor
  watchModule := node.watchModule
  replayWindow := node.replayWindow
  timePolicy := node.timePolicy

/-- Is the height at or below where the node resumed? -/
def OrderedNode.resumed (node : OrderedNode C O J) (view : Nat) : Bool :=
  node.resumeFloor.any (node.viewBase + view ≤ ·)

variable {view : Nat}

section Core

variable {L : Lane C O J} {node node' : OrderedNode C O J}

/-- Two runs on nodes with one core come to the same, and leave one core. -/
def SameCore (x y : Delivered × OrderedNode C O J) : Prop := x.1 = y.1 ∧ x.2.core = y.2.core

theorem settleBlock_core (same : node.core = node'.core) (height : Nat) (batch : FrameId)
    (disposition : Disposition) :
    SameCore (settleBlock L height batch disposition node)
      (settleBlock L height batch disposition node') := by
  simp only [core, NodeCore.mk.injEq] at same
  obtain ⟨code, host, sink, viewBase, ceiling, floor, watch, window, policy⟩ := same
  have outcome : node.sealNow height disposition = node'.sealNow height disposition := by
    simp only [sealNow, OrderedNode.rootHash, code, host]
  unfold settleBlock
  rw [outcome, sink]
  split <;> simp [SameCore, core, rememberApplied, *]

theorem recordOutcome_core (height : Nat) (members : Members) (outcome : BatchOutcome) :
    (recordOutcome height members outcome node).core = node.core :=
  recordOutcome_keeps core (fun _ _ _ _ _ => rfl) height members outcome node

theorem raiseBarrier_core (same : node.core = node'.core) {x y : Delivered × OrderedNode C O J}
    (settled : SameCore x y) : SameCore (raiseBarrier node x) (raiseBarrier node' y) := by
  obtain ⟨verdict, after⟩ := x
  obtain ⟨verdict', after'⟩ := y
  obtain ⟨rfl, cores⟩ := settled
  have moved : watchedMoved node after = watchedMoved node' after' := by
    simp only [core, NodeCore.mk.injEq] at same cores
    simp only [watchedMoved, same, cores]
  cases verdict <;> simp [raiseBarrier, SameCore, moved, cores]

/-- Nodes with one core are one node up to what no delivery reads. -/
@[elab_as_elim] theorem core_cases {P : OrderedNode C O J → OrderedNode C O J → Prop}
    (same : node.core = node'.core)
    (cases : ∀ (node : OrderedNode C O J) events finalized finalizedView lastEngineView drained dispatches
      resumeFloor deferred custody stall, P node { node with
        events := events, finalized := finalized, finalizedView := finalizedView,
        lastEngineView := lastEngineView, drained := drained, systemDispatches := dispatches,
        resumeFloor := resumeFloor, deferred := deferred, custody := custody, codeStall := stall }) : P node node' := by
  obtain ⟨⟩ := node
  obtain ⟨rfl, rfl, rfl, rfl, rfl, rfl, rfl, rfl, rfl⟩ := same
  exact cases _ _ _ _ _ _ _ _ _ _ _

theorem applyBatch_core (same : node.core = node'.core) (height : Nat) (frame : Bytes)
    (prepared : PreparedWork) :
    SameCore (applyBatch L height frame prepared node) (applyBatch L height frame prepared node') := by
  refine core_cases same fun node _ _ _ _ _ _ _ _ _ _ => ?_
  unfold applyBatch
  split
  · refine settleBlock_core ?_ _ _ _
    rfl
  simp only
  split
  · exact ⟨rfl, rfl⟩
  · refine settleBlock_core ?_ _ _ _
    rfl
  · refine raiseBarrier_core rfl (settleBlock_core ?_ _ _ _)
    rw [recordOutcome_core, recordOutcome_core]
    rfl

theorem journalBatch_core (same : node.core = node'.core) (height : Nat) (frame : Bytes) :
    SameCore (journalBatch L height frame node) (journalBatch L height frame node') := by
  refine core_cases same fun node _ _ _ _ _ _ _ _ _ _ => ?_
  unfold journalBatch
  simp only
  cases prepareWork node.code node.host height with
  | error e => exact ⟨rfl, rfl⟩
  | ok prepared =>
    simp only
    generalize L.sink.preApply height frame prepared node.sink = journaled
    obtain ⟨_ | _, j⟩ := journaled
    · exact ⟨rfl, rfl⟩
    · refine applyBatch_core ?_ _ _ _
      rfl

theorem refuseReplayed_core (same : node.core = node'.core) (height : Nat) (batch : FrameId) :
    SameCore (refuseReplayed L height batch node) (refuseReplayed L height batch node') := by
  refine core_cases same fun node _ _ _ _ _ _ _ _ _ _ => ?_
  simp only [refuseReplayed, settleBlock, sealNow, pushDrained, OrderedNode.rootHash]
  rcases L.sink.sealBlock _ _ with ⟨_ | _, j⟩ <;> exact ⟨rfl, rfl⟩

theorem discard_core (height : Nat) (frame : Bytes) : (discard L height frame node).core = node.core := by
  unfold discard
  split <;> rfl

/-- **A delivery above the resume floor acts on the core alone.** -/
theorem deliver_core (same : node.core = node'.core) (frame : Bytes)
    (above : node.resumed view = false) (above' : node'.resumed view = false) :
    SameCore (deliver L view frame node) (deliver L view frame node') := by
  revert above above'
  refine core_cases same fun node _ _ _ _ _ _ floor _ _ _ above above' => ?_
  unfold resumed at above above'
  unfold deliver
  simp only [above, above', Bool.false_eq_true, if_false]
  cases node.appliedFloor.filter (node.viewBase + view ≤ ·) with
  | some applied => exact ⟨rfl, rfl⟩
  | none =>
    simp only
    split
    · refine ⟨rfl, ?_⟩
      rw [discard_core, discard_core]
      rfl
    split
    · refine refuseReplayed_core ?_ _ _
      rfl
    cases L.realize (node.viewBase + view) node.code node.host with
    | error e => exact ⟨rfl, rfl⟩
    | ok realized =>
      refine journalBatch_core ?_ _ _
      rfl

/-- Is the delivery one the node does nothing about: at or below where it resumed, or past the ceiling? -/
def OrderedNode.skips (node : OrderedNode C O J) (view : Nat) : Bool :=
  node.resumed view || node.viewCeiling.any (· ≤ view)

/-- What a delivery that settled nothing leaves. -/
def Idles (view : Nat) (node : OrderedNode C O J) (ran : Delivered × OrderedNode C O J) : Prop :=
  match ran.1 with
  | .passed => node.skips view = true ∧ ran.2.core = node.core
  | .stalled _ => ran.2 = node
  | _ => True

theorem Seals.idles {height : Nat} {batch : FrameId} {before : OrderedNode C O J}
    {ran : Delivered × OrderedNode C O J} (seals : Seals height batch before ran) :
    Idles view node ran := by
  rcases ran with ⟨_ | _ | _ | _ | _, ran⟩
  case passed => exact seals.2.elim
  case stalled => exact seals.2.elim
  all_goals trivial

theorem deliver_idles (view : Nat) (frame : Bytes) (node : OrderedNode C O J) :
    Idles view node (deliver L view frame node) := by
  unfold deliver
  simp only
  split
  · rename_i resumed
    exact ⟨by rw [skips, OrderedNode.resumed, resumed, Bool.true_or], rfl⟩
  split
  · trivial
  split
  · rename_i past
    exact ⟨by rw [skips, past, Bool.or_true], discard_core _ _⟩
  split
  · simp only [refuseReplayed, settleBlock]
    rcases L.sink.sealBlock _ _ with ⟨_ | _, j⟩ <;> trivial
  split
  · rfl
  unfold journalBatch
  simp only
  split
  · trivial
  split
  · trivial
  · exact (applyBatch_seals _ _ _ _).idles

end Core

/-! ## Drains -/

/-- The node after deliveries, one after another. -/
def deliverAll (L : Lane C O J) (queue : List (Nat × Bytes)) (node : OrderedNode C O J) :
    OrderedNode C O J :=
  queue.foldl (fun node delivery => (deliver L delivery.1 delivery.2 node).2) node

/-- Did the delivery neither stall nor fail? -/
def Delivered.goesOn : Delivered → Bool
  | .passed | .sealed | .barrier => true
  | _ => false

/-- Every delivery goes on. -/
def GoesOn (L : Lane C O J) : List (Nat × Bytes) → OrderedNode C O J → Prop
  | [], _ => True
  | (view, frame) :: rest, node =>
    (deliver L view frame node).1.goesOn = true ∧ GoesOn L rest (deliver L view frame node).2

section Stream

variable {L : Lane C O J} {node node' : OrderedNode C O J}

@[simp] theorem deliverAll_nil : deliverAll L [] node = node := rfl

@[simp] theorem deliverAll_cons (delivery : Nat × Bytes) (queue : List (Nat × Bytes)) :
    deliverAll L (delivery :: queue) node
      = deliverAll L queue (deliver L delivery.1 delivery.2 node).2 := rfl

/-- A delivery the node skips and survives changes nothing. -/
theorem deliver_skips {frame : Bytes} (skips : node.skips view = true)
    (goes : (deliver L view frame node).1.goesOn = true) :
    (deliver L view frame node).1 = .passed ∧ (deliver L view frame node).2.core = node.core := by
  have passed : (deliver L view frame node).1 = .passed := by
    revert goes
    unfold deliver
    simp only
    split
    · exact fun _ => rfl
    split
    · exact fun goes => by cases goes
    rename_i resumed _ _
    rw [OrderedNode.skips, OrderedNode.resumed, Bool.eq_false_of_not_eq_true resumed, Bool.false_or] at skips
    rw [if_pos skips]
    exact fun _ => rfl
  have idles := deliver_idles (L := L) view frame node
  rw [Idles, passed] at idles
  exact ⟨passed, idles.2⟩

/-- A delivery the node neither skips nor fails settles its height. -/
theorem deliver_settles {frame : Bytes} (above : node.skips view = false)
    (goes : (deliver L view frame node).1.goesOn = true) :
    (deliver L view frame node).1.settles = true := by
  have idles := deliver_idles (L := L) view frame node
  unfold Idles at idles
  cases verdict : (deliver L view frame node).1 with
  | passed =>
    rw [verdict] at idles
    exact absurd (above.symm.trans idles.1) Bool.false_ne_true
  | «sealed» | barrier => rfl
  | stalled | failed => rw [verdict] at goes; cases goes

theorem deliver_skips_eq (view : Nat) (frame : Bytes) (other : Nat) :
    (deliver L view frame node).2.skips other = node.skips other :=
  deliver_keeps (f := (·.skips other)) (fun _ _ _ _ _ _ _ _ _ _ _ => rfl) view frame node

variable {queue : List (Nat × Bytes)}

/-- The floor after deliveries that were not skipped: what was below it before, or below one of them. -/
theorem deliverAll_floor (above : ∀ d ∈ queue, node.skips d.1 = false)
    (goesOn : GoesOn L queue node) (view : Nat) :
    (deliverAll L queue node).appliedFloor.any (node.viewBase + view ≤ ·) = true ↔
      node.appliedFloor.any (node.viewBase + view ≤ ·) = true ∨ ∃ d ∈ queue, view ≤ d.1 := by
  induction queue generalizing node with
  | nil => simp
  | cons delivery queue ih =>
    obtain ⟨passes, goesOn⟩ := goesOn
    have settles := deliver_settles (above delivery List.mem_cons_self) passes
    have leaves := deliver_leaves (L := L) delivery.1 delivery.2 node
    have base : (deliver L delivery.1 delivery.2 node).2.viewBase = node.viewBase :=
      deliver_keeps (fun _ _ _ _ _ _ _ _ _ _ _ => rfl) _ _ node
    have above' : ∀ d ∈ queue, (deliver L delivery.1 delivery.2 node).2.skips d.1 = false := fun d mem =>
      (deliver_skips_eq ..).trans (above d (List.mem_cons_of_mem _ mem))
    have rest := ih above' goesOn
    rw [base] at rest
    have here : (deliver L delivery.1 delivery.2 node).2.appliedFloor.any (node.viewBase + view ≤ ·) = true ↔
        node.appliedFloor.any (node.viewBase + view ≤ ·) = true ∨ view ≤ delivery.1 := by
      obtain ⟨fresh, floor⟩ : node.appliedFloor.all (· < node.viewBase + delivery.1) = true ∧
          (deliver L delivery.1 delivery.2 node).2.appliedFloor = some (node.viewBase + delivery.1) := by
        unfold Leaves at leaves
        split at leaves
        · exact ⟨leaves.1, leaves.2.1⟩
        · exact ⟨leaves.1, leaves.2.1⟩
        all_goals rename_i verdict; rw [verdict] at settles; cases settles
      rw [floor]
      cases old : node.appliedFloor with
      | none => simp
      | some old' =>
        simp only [old, Option.all_some, decide_eq_true_eq] at fresh
        simp only [Option.any_some, decide_eq_true_eq]
        omega
    rw [deliverAll_cons, rest, here, or_assoc]
    simp

theorem deliverAll_append (queue more : List (Nat × Bytes)) :
    deliverAll L (queue ++ more) node = deliverAll L more (deliverAll L queue node) :=
  List.foldl_append

theorem goesOn_append {more : List (Nat × Bytes)} :
    GoesOn L (queue ++ more) node ↔ GoesOn L queue node ∧ GoesOn L more (deliverAll L queue node) := by
  induction queue generalizing node with
  | nil => simp [GoesOn]
  | cons delivery queue ih => simp [GoesOn, ih, and_assoc]

/-- What deliveries leave alone. -/
theorem deliverAll_keeps {β : Type} {f : OrderedNode C O J → β} (blind : BlindTo f)
    (queue : List (Nat × Bytes)) : f (deliverAll L queue node) = f node := by
  induction queue generalizing node with
  | nil => rfl
  | cons delivery queue ih => exact ih.trans (deliver_keeps blind delivery.1 delivery.2 node)

/-- What the finalized boundary leaves alone. -/
theorem advanceFinalized_keeps {β : Type} {f : OrderedNode C O J → β}
    (blind : ∀ (node : OrderedNode C O J) last finalized view,
      f { node with lastEngineView := last, finalized := finalized, finalizedView := view } = f node)
    (count : DrainCount) (node : OrderedNode C O J) : f (advanceFinalized count node) = f node := by
  unfold advanceFinalized
  cases count.lastView <;> cases count.lastSealedView <;> simp only
  · split
    · exact blind node node.lastEngineView _ _
    · rfl
  · exact blind node _ _ _
  · split <;> exact blind node _ _ _

theorem advanceFinalized_lastEngineView (count : DrainCount) (node : OrderedNode C O J) :
    (advanceFinalized count node).lastEngineView = count.lastView.or node.lastEngineView := by
  unfold advanceFinalized
  cases count.lastView <;> cases count.lastSealedView <;> simp only
  · rfl
  · split <;> rfl
  · rfl
  · split <;> rfl

/-- Does no delivery of the drain fail? It goes through its queue, up to a barrier or a stall. -/
def survives (L : Lane C O J) : List (Nat × Bytes) → OrderedNode C O J → Bool
  | [], _ => true
  | (view, frame) :: rest, node =>
    match (deliver L view frame node).1 with
    | .failed _ => false
    | .barrier | .stalled _ => true
    | _ => survives L rest (deliver L view frame node).2

/-- A drain that does not fail hands the node some of its queue and defers the rest. -/
theorem drainDeferred_survives (count : DrainCount) (unfailing : survives L queue node = true) :
    ∃ handled, queue = handled ++ (drainDeferred L queue count node).2.deferred ∧
      GoesOn L handled node ∧
      (drainDeferred L queue count node).2.core = (deliverAll L handled node).core ∧
      (drainDeferred L queue count node).2.resumeFloor = node.resumeFloor := by
  induction queue generalizing count node with
  | nil => exact ⟨[], rfl, trivial, rfl, rfl⟩
  | cons delivery queue ih =>
    obtain ⟨view, frame⟩ := delivery
    have floor : (deliver L view frame node).2.resumeFloor = node.resumeFloor :=
      deliver_keeps (fun _ _ _ _ _ _ _ _ _ _ _ => rfl) view frame node
    have idles := deliver_idles (L := L) view frame node
    simp only [survives] at unfailing
    simp only [drainDeferred]
    generalize ran : deliver L view frame node = outcome at unfailing floor idles
    obtain ⟨verdict, after⟩ := outcome
    have step : ∀ {count' : DrainCount}, verdict.goesOn = true → survives L queue after = true →
        ∃ handled, (view, frame) :: queue
            = handled ++ (drainDeferred L queue count' after).2.deferred ∧
          GoesOn L handled node ∧
          (drainDeferred L queue count' after).2.core = (deliverAll L handled node).core ∧
          (drainDeferred L queue count' after).2.resumeFloor = node.resumeFloor := by
      intro count' goes unfailing
      obtain ⟨handled, queue_eq, goesOn, core, resume⟩ := ih count' unfailing
      refine ⟨(view, frame) :: handled, congrArg ((view, frame) :: ·) queue_eq, ?_, ?_, ?_⟩
      · exact ⟨by rw [ran]; exact goes, by rw [ran]; exact goesOn⟩
      · rw [core, deliverAll_cons, ran]
      · rw [resume, floor]
    cases verdict with
    | passed | «sealed» => exact step rfl unfailing
    | barrier =>
      refine ⟨[(view, frame)], rfl, ⟨by rw [ran]; rfl, trivial⟩, ?_, floor⟩
      rw [deliverAll_cons, ran]
      rfl
    | stalled e =>
      obtain rfl : after = node := idles
      exact ⟨[], rfl, trivial, rfl, rfl⟩
    | failed e => cases unfailing

/-- A drain that does not fail, from what is deferred and what the orderer delivered. -/
theorem drainDelivered_survives {delivered : List (Nat × Bytes)}
    (unfailing : survives L (node.deferred ++ delivered) node = true) :
    ∃ handled, node.deferred ++ delivered = handled ++ (drainDelivered L delivered node).2.deferred ∧
      GoesOn L handled node ∧
      (drainDelivered L delivered node).2.core = (deliverAll L handled node).core ∧
      (drainDelivered L delivered node).2.resumeFloor = node.resumeFloor := by
  have drained := drainDeferred_survives ⟨0, none, none⟩ unfailing
  unfold drainDelivered
  generalize drainDeferred L (node.deferred ++ delivered) ⟨0, none, none⟩ node = ran at drained
  obtain ⟨_ | count, after⟩ := ran
  · exact drained
  have core := advanceFinalized_keeps (f := core) (fun _ _ _ _ => rfl) count after
  have deferred := advanceFinalized_keeps (f := deferred) (fun _ _ _ _ => rfl) count after
  have floor := advanceFinalized_keeps (f := resumeFloor) (fun _ _ _ _ => rfl) count after
  simp only [core, deferred, floor]
  exact drained

end Stream

end Ducktape
