import Ducktape.Node.Agreement

/-! # The finalized boundary

What a node serves under `finalized`, over any sequence of drains, ceilings and cutovers. A delivery that
seals a block leaves the host in the state it sealed, one that seals nothing leaves the host alone
(`deliver_sealsAt`), and a drain publishes the last block it sealed where it ends (`drainDelivered_describes`)
unless it ends in a code stall: then the blocks sealed before the stall go unpublished (`stall_unpublished`).

`boundary_describes`: where every delivery that a drain comes to behind its first one finds its code, the
boundary describes the host after every drain. -/

namespace Ducktape

open Lib OrderedNode Option

variable {C O J : Type}

/-! ## What a delivery seals -/

/-- The boundary of a settled block. -/
def BlockSeal.boundary (settled : BlockSeal) : FinalizedBlock := ⟨settled.height, settled.rootHash⟩

/-- The seals a node's process wrote. -/
def OrderedNode.seals (node : NotedNode C O J) : List BlockSeal := node.sink.2

/-- A delivery at `height` that sealed a block left the host as it was sealed; one that sealed none left
the host alone. -/
def SealsAt (height : Nat) (node : NotedNode C O J)
    (ran : Delivered × NotedNode C O J) : Prop :=
  match ran.1 with
  | .sealed | .barrier => ∃ disposition, ran.2.seals = node.seals ++ [ran.2.sealNow height disposition]
  | .passed | .stalled _ => ran.2.seals = node.seals ∧ ran.2.rootHash = node.rootHash
  | .failed _ => True

section Deliver

variable {L : Lane C O J} {height : Nat} {batch : FrameId} {node node' : NotedNode C O J}

theorem settleBlock_sealsAt (disposition : Disposition) (same : node'.seals = node.seals) :
    SealsAt height node (settleBlock L.noting height batch disposition node') := by
  simp only [settleBlock, Lane.noting, BlockSink.noting]
  cases L.sink.sealBlock (node'.sealNow height disposition) node'.sink.1 with
  | mk result store =>
    cases result with
    | error => trivial
    | ok => exact ⟨disposition, by rw [← same]; rfl⟩

theorem SealsAt.raised {ran : Delivered × NotedNode C O J} (seals : SealsAt height node ran)
    (before : NotedNode C O J) : SealsAt height node (raiseBarrier before ran) := by
  rcases ran with ⟨_ | _ | _ | _ | _, ran⟩
  case sealed =>
    simp only [raiseBarrier]
    split <;> exact seals
  all_goals exact seals

/-- Running a block seals nothing. -/
theorem submitBlockPrepared_seals (code : Host C O) (ctx : BlockContext) (ops : List BlockOp)
    (prepared : PreparedWork) (host : HostState C) (sink : J × List BlockSeal) :
    (submitBlockPrepared code (sinkWitness L.noting.sink) ctx ops prepared host sink).2.2.2 = sink.2 := by
  have kept : ∀ witness, ((sinkWitness L.noting.sink).record ctx.height witness sink).2.2 = sink.2 := by
    intro witness
    simp only [sinkWitness, Lane.noting, BlockSink.noting]
    rcases L.sink.witness ctx.height witness sink.1 with ⟨_ | _, _⟩ <;> rfl
  simp only [submitBlockPrepared, applyBlock]
  split
  · rfl
  rename_i witness _
  have recorded := kept witness
  split
  · rename_i refused
    rwa [refused] at recorded
  · rename_i accepted
    rw [accepted] at recorded
    split <;> exact recorded

theorem applyBatch_sealsAt (height : Nat) (frame : Bytes) (prepared : PreparedWork) (same : node'.seals = node.seals) :
    SealsAt height node (applyBatch L.noting height frame prepared node') := by
  unfold applyBatch
  split
  · exact settleBlock_sealsAt _ same
  rename_i members _
  have kept := submitBlockPrepared_seals (L := L) node'.code ⟨height, node'.timePolicy.stamp height⟩
    (decodeMembers L.noting.crypto members []).ops prepared node'.host node'.sink
  simp only
  split
  · trivial
  · rename_i ran
    rw [ran] at kept
    exact settleBlock_sealsAt _ (kept.trans same)
  · rename_i ran
    rw [ran] at kept
    refine (settleBlock_sealsAt _ ?_).raised node'
    exact (recordOutcome_keeps seals (fun _ _ _ _ _ => rfl) ..).trans (kept.trans same)

theorem deliver_sealsAt (view : Nat) (frame : Bytes) (node : NotedNode C O J) :
    SealsAt (node.viewBase + view) node (deliver L.noting view frame node) := by
  unfold deliver
  simp only
  split
  · exact ⟨rfl, rfl⟩
  split
  · trivial
  split
  · unfold discard
    split <;> exact ⟨rfl, rfl⟩
  split
  · simp only [refuseReplayed, settleBlock, Lane.noting, BlockSink.noting]
    rcases L.sink.sealBlock _ _ with ⟨_ | _, j⟩
    exacts [trivial, ⟨.rejected, rfl⟩]
  split
  · exact ⟨rfl, rfl⟩
  unfold journalBatch
  simp only
  split
  · trivial
  rename_i prepared _
  split
  · trivial
  · rename_i journaled
    exact applyBatch_sealsAt _ frame prepared (congrArg (·.2.2) journaled).symm

end Deliver

/-! ## Drains -/

/-- The boundary of the last block sealed, or the one the process started from. -/
def OrderedNode.tip (node : NotedNode C O J) (start : Option FinalizedBlock) :
    Option FinalizedBlock := (node.seals.getLast?.map BlockSeal.boundary).or start

/-- The host stands where the last block left it. -/
structure OnTip (start : Option FinalizedBlock) (node : NotedNode C O J) : Prop where
  root : ∀ block, node.tip start = some block → block.rootHash = node.rootHash
  floor : node.appliedFloor = (node.tip start).map (·.height)

/-- A drain in progress: `count` names the last block it sealed, if any, and nothing is published yet. -/
structure UnderWay (start : Option FinalizedBlock) (count : DrainCount)
    (node : NotedNode C O J) : Prop where
  onTip : OnTip start node
  unsealed : count.lastSealedView = none → node.finalized = node.tip start ∧
    node.finalizedView.map (node.viewBase + ·) = node.seals.getLast?.map (·.height)
  sealed_ : ∀ view, count.lastSealedView = some view →
    node.seals.getLast?.map (·.height) = some (node.viewBase + view) ∧
      node.finalized.all (·.height < node.viewBase + view)

/-- What of a node a delivery leaves and a boundary is made of. -/
def OrderedNode.published (node : OrderedNode C O J) : Nat × Option FinalizedBlock × Option Nat × Option Nat :=
  (node.viewBase, node.finalized, node.finalizedView, node.lastEngineView)

section Drains

variable {L : Lane C O J} {start : Option FinalizedBlock} {count : DrainCount}
  {node node' : NotedNode C O J} {view : Nat} {frame : Bytes}

theorem deliver_published (view : Nat) (frame : Bytes) (node : OrderedNode C O J) :
    (deliver L view frame node).2.published = node.published :=
  deliver_keeps (fun _ _ _ _ _ _ _ _ _ _ _ => rfl) view frame node

/-- The tip after a delivery. -/
theorem tip_of_seals {settled : BlockSeal} {before : List BlockSeal} (seals : node.seals = before ++ [settled]) :
    node.tip start = some settled.boundary := by
  rw [tip, seals, List.getLast?_concat]
  rfl

/-- A delivery that seals nothing changes nothing of a drain. -/
theorem UnderWay.passed (underWay : UnderWay start count node) (seals : node'.seals = node.seals)
    (root : node'.rootHash = node.rootHash) (floor : node'.appliedFloor = node.appliedFloor)
    (published : node'.published = node.published) (lastView : Option Nat) (applied : Nat) :
    UnderWay start { count with applied, lastView } node' := by
  obtain ⟨base, finalized, view, -⟩ : node'.viewBase = node.viewBase ∧ node'.finalized = node.finalized ∧
      node'.finalizedView = node.finalizedView ∧ node'.lastEngineView = node.lastEngineView := by
    simpa [OrderedNode.published] using published
  have tip : node'.tip start = node.tip start := by rw [tip, seals, tip]
  refine ⟨⟨?_, ?_⟩, ?_, ?_⟩
  · rw [tip, root]
    exact underWay.onTip.root
  · rw [tip, floor]
    exact underWay.onTip.floor
  · rw [tip, seals, base, finalized, view]
    exact underWay.unsealed
  · rw [seals, base, finalized]
    exact underWay.sealed_

/-- A delivery that seals a block makes it the tip, above the published boundary. -/
theorem UnderWay.sealed (underWay : UnderWay start count node)
    (seals : ∃ disposition, node'.seals = node.seals ++ [node'.sealNow (node.viewBase + view) disposition])
    (fresh : node.appliedFloor.all (· < node.viewBase + view))
    (floor : node'.appliedFloor = some (node.viewBase + view)) (published : node'.published = node.published)
    (applied : Nat) : UnderWay start ⟨applied, some view, some view⟩ node' := by
  obtain ⟨base, finalized, -⟩ : node'.viewBase = node.viewBase ∧ node'.finalized = node.finalized ∧
      node'.finalizedView = node.finalizedView ∧ node'.lastEngineView = node.lastEngineView := by
    simpa [OrderedNode.published] using published
  obtain ⟨disposition, seals⟩ := seals
  have tip : node'.tip start = _ := tip_of_seals seals
  refine ⟨⟨fun block is => ?_, by rw [floor, tip]; rfl⟩, nofun, fun newest is => ?_⟩
  · cases tip.symm.trans is
    rfl
  · cases is
    refine ⟨by rw [seals, List.getLast?_concat, base]; rfl, ?_⟩
    rw [finalized, base]
    rw [underWay.onTip.floor] at fresh
    -- The published boundary is the tip, or below the last block of this drain, which is the tip.
    cases last : count.lastSealedView with
    | none =>
      rw [(underWay.unsealed last).1]
      rwa [all_map] at fresh
    | some earlier =>
      obtain ⟨named, below⟩ := underWay.sealed_ earlier last
      obtain ⟨settled, is, height⟩ := map_eq_some_iff.mp named
      simp only [OrderedNode.tip, is, Option.map_some, Option.some_or, BlockSeal.boundary, all_some, decide_eq_true_eq] at fresh
      cases held : node.finalized with
      | none => rfl
      | some block =>
        simp only [held, all_some, decide_eq_true_eq] at below ⊢
        omega

theorem deliver_codeResolves (view : Nat) (frame : Bytes) (node : NotedNode C O J)
    (resolves : ∃ realized, L.realize (node.viewBase + view) node.code node.host = .ok realized) (e : Error) :
    (deliver L.noting view frame node).1 ≠ .stalled e := by
  have ran : ∀ {ran : Delivered × NotedNode C O J} {batch : FrameId}
      {before : NotedNode C O J}, Seals (node.viewBase + view) batch before ran →
      ran.1 ≠ .stalled e := by
    rintro ⟨_, ran⟩ batch before ⟨-, seals⟩ rfl
    exact seals
  unfold deliver
  simp only
  split
  · rintro ⟨⟩
  split
  · rintro ⟨⟩
  split
  · rintro ⟨⟩
  split
  · simp only [refuseReplayed, settleBlock]
    rcases L.noting.sink.sealBlock _ _ with ⟨_ | _, j⟩ <;> rintro ⟨⟩
  obtain ⟨realized, resolved⟩ := resolves
  rw [show L.noting.realize (node.viewBase + view) node.code node.host = .ok realized from resolved]
  unfold journalBatch
  simp only
  split
  · rintro ⟨⟩
  split
  · rintro ⟨⟩
  · exact ran (applyBatch_seals ..)

/-- Does the drain go on with the next delivery? -/
def Delivered.drainsOn : Delivered → Bool
  | .passed | .sealed => true
  | _ => false

/-- Every delivery that a drain of the queue comes to finds its code, in the state the ones before it leave. -/
def FindsCode (L : Lane C O J) : List (Nat × Bytes) → NotedNode C O J → Prop
  | [], _ => True
  | (view, frame) :: rest, node =>
    (∃ realized, L.realize (node.viewBase + view) node.code node.host = .ok realized) ∧
      ((deliver L.noting view frame node).1.drainsOn → FindsCode L rest (deliver L.noting view frame node).2)

/-- Every delivery behind the first one that a drain of the queue comes to finds its code. -/
def FindsCodeBehind (L : Lane C O J) (node : NotedNode C O J) : List (Nat × Bytes) → Prop
  | [] => True
  | (view, frame) :: rest =>
    (deliver L.noting view frame node).1.drainsOn → FindsCode L rest (deliver L.noting view frame node).2

/-- It stalled at a delivery that does not find its code, and if only the first one may be such, nothing else
happened. -/
def StalledAt (L : Lane C O J) (queue : List (Nat × Bytes)) (node node' : NotedNode C O J) :
    Prop :=
  ¬ FindsCode L queue node ∧
    (FindsCodeBehind L node queue → ∃ stall, node' = { node with deferred := queue, codeStall := stall })

/-- **What a drain leaves**: it handed the node the front of its queue, or it stalled. -/
theorem drainDeferred_underWay {queue : List (Nat × Bytes)} (underWay : UnderWay start count node)
    (survives_ : survives L.noting queue node = true) :
    match drainDeferred L.noting queue count node with
    | (.ok count', node') => UnderWay start count' node' ∧ node'.lastEngineView = node.lastEngineView ∧
        ∃ handled, queue = handled ++ node'.deferred ∧
          count'.lastView = (handled.getLast?.map (·.1)).or count.lastView
    | (.error _, node') => StalledAt L queue node node' := by
  induction queue generalizing count node with
  | nil => exact ⟨⟨⟨underWay.onTip.root, underWay.onTip.floor⟩, underWay.unsealed, underWay.sealed_⟩, rfl, [], rfl, rfl⟩
  | cons delivery queue ih =>
    obtain ⟨view, frame⟩ := delivery
    have seals := deliver_sealsAt (L := L) view frame node
    have leaves := deliver_leaves (L := L.noting) view frame node
    have published := deliver_published (L := L.noting) view frame node
    have idles := deliver_idles (L := L.noting) view frame node
    have stalls := deliver_codeResolves (L := L) view frame node
    have stalled : ∀ node', (deliver L.noting view frame node).1.drainsOn = true →
        StalledAt L queue (deliver L.noting view frame node).2 node' → StalledAt L ((view, frame) :: queue) node node' :=
      fun node' on later => ⟨fun resolves => later.1 (resolves.2 on), fun behind => absurd (behind on) later.1⟩
    simp only [survives] at survives_
    simp only [drainDeferred]
    generalize deliver L.noting view frame node = outcome at seals leaves published idles stalls stalled survives_
    obtain ⟨verdict, after⟩ := outcome
    have engine : after.viewBase = node.viewBase ∧ after.lastEngineView = node.lastEngineView :=
      ⟨congrArg (·.1) published, congrArg (·.2.2.2) published⟩
    -- The rest of the queue is drained from `after`, with this view as the last one.
    have rest : ∀ {count' : DrainCount}, verdict.drainsOn = true → count'.lastView = some view →
        UnderWay start count' after → survives L.noting queue after = true →
        match drainDeferred L.noting queue count' after with
        | (.ok count', node') => UnderWay start count' node' ∧ node'.lastEngineView = node.lastEngineView ∧
            ∃ handled, (view, frame) :: queue = handled ++ node'.deferred ∧
              count'.lastView = (handled.getLast?.map (·.1)).or count.lastView
        | (.error _, node') => StalledAt L ((view, frame) :: queue) node node' := by
      intro count' on last underWay survives_
      have later := ih underWay survives_
      generalize drainDeferred L.noting queue count' after = ran at later
      obtain ⟨_ | count'', node'⟩ := ran
      · exact stalled node' on later
      obtain ⟨drained, kept, handled, rfl, lastView⟩ := later
      refine ⟨drained, kept.trans engine.2, (view, frame) :: handled, rfl, ?_⟩
      rw [lastView, last, List.getLast?_cons]
      cases handled.getLast? <;> rfl
    cases verdict with
    | passed => exact rest rfl rfl (underWay.passed seals.1 seals.2 leaves.1 published _ _) survives_
    | «sealed» => exact rest rfl rfl (underWay.sealed seals leaves.1 leaves.2.1 published _) survives_
    | barrier =>
      have drained := underWay.sealed seals leaves.1 leaves.2.1 published (count.applied + 1)
      exact ⟨⟨⟨drained.onTip.root, drained.onTip.floor⟩, drained.unsealed, drained.sealed_⟩, engine.2,
        [(view, frame)], rfl, rfl⟩
    | stalled e =>
      obtain rfl : after = node := idles
      exact ⟨fun resolves => stalls resolves.1 e rfl, fun _ => ⟨_, rfl⟩⟩
    | failed => cases survives_

/-- Publishing the boundary of a drain that ended. -/
theorem UnderWay.publish (underWay : UnderWay start count node) :
    UnderWay start ⟨0, none, none⟩ (advanceFinalized count node) := by
  have tip := advanceFinalized_keeps (f := fun node => (tip node start, node.rootHash, node.appliedFloor,
    node.viewBase, node.seals)) (fun _ _ _ _ => rfl) count node
  simp only [Prod.mk.injEq] at tip
  obtain ⟨tip, root, floor, base, seals⟩ := tip
  refine ⟨⟨by rw [tip, root]; exact underWay.onTip.root, by rw [tip, floor]; exact underWay.onTip.floor⟩,
    fun _ => ?_, nofun⟩
  unfold advanceFinalized
  cases last : count.lastSealedView with
  | none => cases count.lastView <;> exact underWay.unsealed last
  | some view =>
    obtain ⟨named, below⟩ := underWay.sealed_ view last
    obtain ⟨settled, newest, height⟩ := map_eq_some_iff.mp named
    have is : node.tip start = some settled.boundary := by simp [OrderedNode.tip, newest]
    have root : settled.rootHash = node.rootHash := underWay.onTip.root _ is
    have published : some ⟨node.viewBase + view, node.rootHash⟩ = node.tip start := by
      rw [is, BlockSeal.boundary, height, root]
    cases count.lastView <;> simp only [if_pos below] <;> exact ⟨published, named.symm⟩

end Drains

/-! ## Runs -/

/-- A node at the start of its process or of an epoch: it stands where its recovered boundary says. -/
structure Opens (node : NotedNode C O J) : Prop where
  seals : node.seals = []
  views : node.finalizedView = none ∧ node.lastEngineView = none
  root : ∀ block, node.finalized = some block → block.rootHash = node.rootHash
  floor : node.appliedFloor = node.finalized.map (·.height)

/-- The deliveries a drain took off its queue for good. -/
def taken (queue deferred : List (Nat × Bytes)) : List (Nat × Bytes) := queue.take (queue.length - deferred.length)

/-- What drains that return `Ok` or `CodeStalled` lead to, each one allowed by `rule`, with the views
processed. Between them the driver sets ceilings and watches, and proposes. -/
inductive Epoch (L : Lane C O J) (rule : NotedNode C O J → List (Nat × Bytes) → Prop)
    (start : NotedNode C O J) : NotedNode C O J → List Nat → Prop
  | opens : Epoch L rule start start []
  | drain {node : NotedNode C O J} {views : List Nat} (before : Epoch L rule start node views)
      (delivered : List (Nat × Bytes)) (allowed : rule node delivered)
      (returns : survives L.noting (node.deferred ++ delivered) node = true) :
      Epoch L rule start (drainDelivered L.noting delivered node).2
        (views ++ (taken (node.deferred ++ delivered) (drainDelivered L.noting delivered node).2.deferred).map (·.1))
  | arm {node : NotedNode C O J} {views : List Nat} (before : Epoch L rule start node views)
      (viewCeiling : Option Nat) (watchModule : Option ModuleId) (sink : J) :
      Epoch L rule start { node with viewCeiling, watchModule, sink := (sink, node.sink.2) } views

/-- The boundary names the last block sealed, with the root the host still has, and the views are those of
that block and of the last delivery processed. -/
structure Describes (start : NotedNode C O J) (views : List Nat)
    (node : NotedNode C O J) : Prop where
  boundary : node.finalized = node.tip start.finalized
  root : ∀ block, node.finalized = some block → block.rootHash = node.rootHash
  view : node.finalizedView.map (node.viewBase + ·) = node.seals.getLast?.map (·.height)
  engine : node.lastEngineView = views.getLast?

/-- The drain of these deliveries may stall at its first one only. -/
def Resolvable (L : Lane C O J) (node : NotedNode C O J) (delivered : List (Nat × Bytes)) :
    Prop := FindsCodeBehind L node (node.deferred ++ delivered)

section Runs

variable {L : Lane C O J} {start node : NotedNode C O J} {views : List Nat}

theorem drainDelivered_describes {delivered : List (Nat × Bytes)} (resolvable : Resolvable L node delivered)
    (returns : survives L.noting (node.deferred ++ delivered) node = true)
    (underWay : UnderWay start.finalized ⟨0, none, none⟩ node) (engine : node.lastEngineView = views.getLast?) :
    UnderWay start.finalized ⟨0, none, none⟩ (drainDelivered L.noting delivered node).2 ∧
      (drainDelivered L.noting delivered node).2.lastEngineView = (views ++
        (taken (node.deferred ++ delivered) (drainDelivered L.noting delivered node).2.deferred).map (·.1)).getLast? := by
  have drained := drainDeferred_underWay underWay returns
  unfold drainDelivered
  unfold Resolvable at resolvable
  generalize node.deferred ++ delivered = queue at resolvable drained
  generalize drainDeferred L.noting queue ⟨0, none, none⟩ node = ran at drained
  obtain ⟨_ | count, after⟩ := ran
  · obtain ⟨stall, rfl⟩ := drained.2 resolvable
    refine ⟨⟨⟨underWay.onTip.root, underWay.onTip.floor⟩, underWay.unsealed, underWay.sealed_⟩, ?_⟩
    simpa [taken] using engine
  · obtain ⟨drained, kept, handled, rfl, last⟩ := drained
    have deferred := advanceFinalized_keeps (f := deferred) (fun _ _ _ _ => rfl) count after
    refine ⟨drained.publish, ?_⟩
    rw [advanceFinalized_lastEngineView, kept, engine, last, deferred, taken, List.length_append, Nat.add_sub_cancel,
      List.take_left, List.getLast?_append, List.getLast?_map, or_none]

/-- **The finalized boundary describes the host** after every drain of every run in which each delivery that a
drain comes to behind its first one finds its code. -/
theorem boundary_describes (opens : Opens start) (run : Epoch L (Resolvable L) start node views) :
    Describes start views node := by
  suffices kept : UnderWay start.finalized ⟨0, none, none⟩ node ∧ node.lastEngineView = views.getLast? by
    obtain ⟨underWay, engine⟩ := kept
    obtain ⟨boundary, view⟩ := underWay.unsealed rfl
    exact ⟨boundary, fun block is => underWay.onTip.root block (boundary ▸ is), view, engine⟩
  induction run with
  | opens =>
    have tip : start.tip start.finalized = start.finalized := by simp [OrderedNode.tip, opens.seals]
    refine ⟨⟨⟨by rw [tip]; exact opens.root, by rw [tip]; exact opens.floor⟩, fun _ => ?_, nofun⟩, opens.views.2⟩
    exact ⟨tip.symm, by rw [opens.seals, opens.views.1]; rfl⟩
  | drain _ _ resolvable returns ih => exact drainDelivered_describes resolvable returns ih.1 ih.2
  | arm _ _ _ _ ih =>
    exact ⟨⟨⟨ih.1.onTip.root, ih.1.onTip.floor⟩, ih.1.unsealed, ih.1.sealed_⟩, ih.2⟩

end Runs

/-! ## A stall behind a sealed block -/

/-- A lane of tallies that lacks the code of one height. -/
def lackingLane (lacking : Nat) : Lane Nat Nat Unit :=
  { tallyLane with
    realize := fun height code host => if height = lacking then .error (.module "absent") else .ok (code, host) }

/-- A drain that seals height 1 and stalls at height 2. -/
def stalledNode : OrderedNode Nat Nat (Unit × List BlockSeal) :=
  (drainDelivered (lackingLane 2).noting [(1, tallyPayload false), (2, tallyPayload true)] tallyEpoch).2

/-- The drain sealed height 1 and returns, and `finalized` still names nothing. -/
theorem stall_unpublished : Opens tallyEpoch ∧ Epoch (lackingLane 2) (fun _ _ => True) tallyEpoch stalledNode [1] ∧
    stalledNode.seals.map (·.height) = [1] ∧ stalledNode.finalized = none ∧ stalledNode.lastEngineView = none := by
  have opens : Opens tallyEpoch := ⟨rfl, ⟨rfl, rfl⟩, nofun, rfl⟩
  have start : Epoch (lackingLane 2) (fun _ _ => True) tallyEpoch tallyEpoch [] := .opens
  have run := start.drain [(1, tallyPayload false), (2, tallyPayload true)] trivial (by decide +kernel)
  exact ⟨opens, run, by decide +kernel, by decide +kernel, by decide +kernel⟩

/-- Where the code of height 3 is missing, a drain of two deliveries is published, and the drain that stalls at
height 3 behind it changes nothing. -/
theorem boundary_describes_apart :
    Describes tallyEpoch [1, 2] (drainDelivered (lackingLane 3).noting [(3, [])]
      (drainDelivered (lackingLane 3).noting [(1, tallyPayload false), (2, tallyPayload true)] tallyEpoch).2).2 := by
  have start : Epoch (lackingLane 3) (Resolvable (lackingLane 3)) tallyEpoch tallyEpoch [] := .opens
  have first := start.drain [(1, tallyPayload false), (2, tallyPayload true)]
    (fun _ => ⟨⟨_, rfl⟩, fun _ => trivial⟩) (by decide +kernel)
  have second := first.drain [(3, [])] (fun _ => trivial) (by decide +kernel)
  exact boundary_describes ⟨rfl, ⟨rfl, rfl⟩, nofun, rfl⟩ second

end Ducktape
