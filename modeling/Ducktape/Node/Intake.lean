import Ducktape.Recovery.Writer

/-! # Custody over a node's life

A node takes frames into custody, flushes them to its orderer in batches, drains what the order
delivers, and carries what is unresolved over an epoch cutover. `NodeEvent` lists what its driver does,
`runNode` is any interleaving.

`custody_run`: the counters are right and the caps hold in every run, and an accepted frame stays in
custody until a drained block resolves it. The queue names distinct held frames, and no resolved frame
is proposed again, in the runs that are `Untangled`: no resolved frame is submitted again, and no
drained batch resolves a frame still queued here. -/

namespace Ducktape

open List Prod Custody

variable {C O J : Type} (L : Lane C O J)

/-! ## The operations -/

/-- An orderer's answer to a proposal. -/
abbrev Orderer := Bytes → Except NodeError Unit

/-- `submit_frame`. -/
def submitFrame (frame : Bytes) (node : OrderedNode C O J) :
    Except NodeError FrameId × OrderedNode C O J :=
  match node.custody.accept L.crypto frame with
  | .error e => (.error e, node)
  | .ok (id, custody) => (.ok id, { node with custody := custody })

/-- `propose_batch`: the batch is pinned, then handed to the orderer. -/
def proposeTo (orderer : Orderer) (members : List Bytes) (node : OrderedNode C O J) :
    Except NodeError Unit × OrderedNode C O J :=
  match proposeBatch L members node with
  | (.error e, node) => (.error e, node)
  | (.ok (), node) => (orderer (encodeBatch members), node)

/-- What a flush comes to: how many batches were accepted, and every batch it proposed. -/
structure Flush where
  result : Except NodeError Nat
  proposed : List (List Bytes)

/-- The flush with `turns` batches left. -/
def flushTurns (orderer : Orderer) : Nat → OrderedNode C O J → Flush × OrderedNode C O J
  | 0, node => (⟨.ok 0, []⟩, node)
  | turns + 1, node =>
    let (members, custody) := node.custody.takeOneBatch
    let node := { node with custody := custody }
    if members = [] then (⟨.ok 0, []⟩, node)
    else match proposeTo L orderer members node with
      | (.error e, node) => (⟨.error e, [members]⟩, node)
      | (.ok (), node) =>
        let (flush, node) := flushTurns orderer turns node
        (⟨flush.result.map (· + 1), members :: flush.proposed⟩, node)

/-- `flush_batch`. -/
def flushBatch (orderer : Orderer) (node : OrderedNode C O J) : Flush × OrderedNode C O J :=
  flushTurns L orderer maxFlushBatchesPerTurn node

/-- The parameters of a cutover: the new epoch and its orderer, and the order the map of held frames is
walked in. -/
structure Cutover where
  epoch : Nat
  viewBase : Nat
  participants : List Bytes
  residents : List Bytes
  orderer : Orderer
  order : Custody.Reordering (FrameId × Nat × Bytes)

/-- `cutover` with its carry. -/
def cutOverCarrying (cut : Cutover) (node : OrderedNode C O J) : Flush × OrderedNode C O J :=
  match cutOver L cut.epoch cut.viewBase cut.participants cut.residents node with
  | (.error e, node) => (⟨.error e, []⟩, node)
  | (.ok (), node) => flushBatch L cut.orderer { node with custody := node.custody.carry cut.order }

/-! ## Runs -/

/-- What a node's driver does with it. -/
inductive NodeEvent
  | submit (frame : Bytes)
  | flush (orderer : Orderer)
  | drain (delivered : List (Nat × Bytes))
  | cutover (cut : Cutover)
  | ceiling (view : Nat)
  | watch (module : ModuleId)

/-- The batches an event proposes, and the node it leaves. -/
def nodeStep (event : NodeEvent) (node : OrderedNode C O J) : List (List Bytes) × OrderedNode C O J :=
  match event with
  | .submit frame => ([], (submitFrame L frame node).2)
  | .flush orderer => ((flushBatch L orderer node).1.proposed, (flushBatch L orderer node).2)
  | .drain delivered => ([], (drainDelivered L delivered node).2)
  | .cutover cut => ((cutOverCarrying L cut node).1.proposed, (cutOverCarrying L cut node).2)
  | .ceiling view => ([], { node with viewCeiling := some view })
  | .watch module => ([], { node with watchModule := some module })

/-- Any interleaving of events. It goes on after every error, more than any driver does. -/
def runNode (events : List NodeEvent) (node : OrderedNode C O J) : OrderedNode C O J :=
  events.foldl (fun node event => (nodeStep L event node).2) node

/-- The node has drained the frame as applied or rejected. -/
def Drained (node : OrderedNode C O J) (id : FrameId) : Prop :=
  ∃ record ∈ node.drained, record.id = id ∧ record.disposition ≠ .discarded

instance (node : OrderedNode C O J) (id : FrameId) : Decidable (Drained node id) :=
  inferInstanceAs (Decidable (∃ record ∈ node.drained, record.id = id ∧ record.disposition ≠ .discarded))

/-- A delivery at this view is neither skipped as recovered history nor discarded past the ceiling. -/
def reaches (node : OrderedNode C O J) (view : Nat) : Bool :=
  !node.resumeFloor.any (node.viewBase + view ≤ ·) && !node.viewCeiling.any (· ≤ view)

/-- The event resolves no queued frame and submits no resolved one: a batch that is drained has no
member queued here, and its bytes are not themselves a held frame. -/
def Untangled (node : OrderedNode C O J) : NodeEvent → Prop
  | .submit frame => ¬ Drained node (frameId L.crypto frame)
  | .drain delivered => ∀ delivery ∈ node.deferred ++ delivered, reaches node delivery.1 →
      frameId L.crypto delivery.2 ∉ node.custody.outstanding ∧
        ∀ member ∈ (decodeBatch delivery.2).toOption.getD [],
          frameId L.crypto member ∉ node.custody.queue
  | _ => True

instance (node : OrderedNode C O J) : (event : NodeEvent) → Decidable (Untangled L node event)
  | .submit _ => inferInstanceAs (Decidable (¬ _))
  | .drain delivered => inferInstanceAs (Decidable (∀ delivery ∈ node.deferred ++ delivered, _ → _))
  | .flush _ | .cutover _ | .ceiling _ | .watch _ => .isTrue trivial

/-- Every event of the run is untangled in the state it finds. -/
def UntangledAlong : List NodeEvent → OrderedNode C O J → Prop
  | [], _ => True
  | event :: events, node =>
    Untangled L node event ∧ UntangledAlong events (nodeStep L event node).2

instance decidableUntangledAlong :
    (events : List NodeEvent) → (node : OrderedNode C O J) → Decidable (UntangledAlong L events node)
  | [], _ => .isTrue trivial
  | event :: events, node =>
    have := decidableUntangledAlong events (nodeStep L event node).2
    inferInstanceAs (Decidable (_ ∧ _))

/-! ## One delivery -/

section deliveries

variable {L} {node node' : OrderedNode C O J} {frame : Bytes} {records : List DrainedFrame}
  {P : OrderedNode C O J → Prop}

/-- What resolving touches: custody and the drained records. -/
def OrderedNode.books (node : OrderedNode C O J) : Custody × List DrainedFrame :=
  (node.custody, node.drained)

/-- The members `ids` of the batch `frame` left custody and `records` were drained: every member that
left has its record, and every other record but a discard is under the batch's own id. -/
structure Resolves (L : Lane C O J) (frame : Bytes) (node node' : OrderedNode C O J)
    (ids : List FrameId) (records : List DrainedFrame) : Prop where
  custody : node'.custody = ids.foldl Custody.release node.custody
  drained : node'.drained = node.drained ++ records
  member : ∀ id ∈ ids, ∃ members, decodeBatch frame = .ok members ∧
    ∃ member ∈ members, frameId L.crypto member = id
  recorded : ∀ id ∈ ids, ∃ record ∈ records, record.id = id ∧ record.disposition ≠ .discarded
  whole : ∀ record ∈ records, record.disposition ≠ .discarded →
    record.id ∈ ids ∨ record.id = frameId L.crypto frame

/-- Nothing left custody; what was drained is under the batch's own id or a discard. -/
theorem Resolves.of_records (custody : node'.custody = node.custody)
    (drained : node'.drained = node.drained ++ records)
    (whole : ∀ record ∈ records, record.disposition ≠ .discarded → record.id = frameId L.crypto frame) :
    Resolves L frame node node' [] records :=
  ⟨custody, drained, nofun, nofun, fun record mem kept => .inr (whole record mem kept)⟩

theorem Resolves.of_same (custody : node'.custody = node.custody)
    (drained : node'.drained = node.drained) : Resolves L frame node node' [] [] :=
  .of_records custody (by rw [drained, append_nil]) nofun

/-- Only custody and the drained records matter. -/
theorem Resolves.congr {start final : OrderedNode C O J} {ids : List FrameId}
    (resolves : Resolves L frame start final ids records) (before : start.books = node.books)
    (after : node'.books = final.books) : Resolves L frame node node' ids records := by
  obtain ⟨custody, drained⟩ := mk.inj before
  obtain ⟨custody', drained'⟩ := mk.inj after
  refine ⟨?_, ?_, resolves.member, resolves.recorded, resolves.whole⟩
  · rw [custody', resolves.custody, custody]
  · rw [drained', resolves.drained, drained]

/-- The sorted-out members are members of the batch. -/
theorem decodeMembers_mem {crypto : FrameCrypto} {members : List Bytes} {seen : List FrameId}
    {id : FrameId} (mem : id ∈ (decodeMembers crypto members seen).decoded.map fst ∨
      id ∈ (decodeMembers crypto members seen).decodeFail.map fst) :
    ∃ member ∈ members, frameId crypto member = id := by
  fun_induction decodeMembers crypto members seen with
  | case1 => simp at mem
  | case2 | case3 | case4 => grind

/-- Recording outcomes one by one. -/
theorem foldl_records {α : Type} (step : OrderedNode C O J → α → OrderedNode C O J)
    (idOf : α → FrameId) (records : ∀ node a, (step node a).custody = node.custody.release (idOf a) ∧
      ∃ record, (step node a).drained = node.drained ++ [record] ∧ record.id = idOf a ∧
        record.disposition ≠ .discarded) (l : List α) (node : OrderedNode C O J) :
    ∃ more, (l.foldl step node).custody = (l.map idOf).foldl Custody.release node.custody ∧
      (l.foldl step node).drained = node.drained ++ more ∧
      more.map DrainedFrame.id = l.map idOf ∧ ∀ record ∈ more, record.disposition ≠ .discarded := by
  induction l generalizing node with
  | nil => exact ⟨[], rfl, by simp, rfl, nofun⟩
  | cons a l ih =>
    obtain ⟨custody, record, drained, named, kept⟩ := records node a
    obtain ⟨more, custody', drained', names, kepts⟩ := ih (step node a)
    refine ⟨record :: more, ?_, ?_, ?_, ?_⟩
    · rw [foldl_cons, custody', custody]
      rfl
    · rw [foldl_cons, drained', drained]
      simp
    · rw [map_cons, map_cons, names, named]
    · simpa using ⟨kept, kepts⟩

/-- Recording a block's outcome resolves its members. -/
theorem recordOutcome_resolves (height : Nat) {members : List Bytes} (outcome : BatchOutcome)
    (node : OrderedNode C O J) (decoded : decodeBatch frame = .ok members) :
    ∃ ids records, Resolves L frame node
      (recordOutcome height (decodeMembers L.crypto members []) outcome node) ids records := by
  obtain ⟨applied, custody, drained, names, kept⟩ := foldl_records (recordMember height)
    (fun member => member.1.1) (fun node member => ⟨rfl, _, rfl, rfl, by
      obtain ⟨⟨id, op⟩, outcome⟩ := member
      cases outcome <;> simp⟩)
    ((decodeMembers L.crypto members []).decoded.zip outcome.members)
    { node with
      events := node.events ++ outcome.events
      systemDispatches := if outcome.ranInternalWork then
          node.systemDispatches ++ [(height, outcome.internalDispatches)]
        else node.systemDispatches }
  obtain ⟨failed, custody', drained', names', kept'⟩ := foldl_records (recordDecodeFail height)
    fst (fun node failed => ⟨rfl, _, rfl, rfl, by simp⟩)
    (decodeMembers L.crypto members []).decodeFail
    (((decodeMembers L.crypto members []).decoded.zip outcome.members).foldl (recordMember height)
      { node with
        events := node.events ++ outcome.events
        systemDispatches := if outcome.ranInternalWork then
            node.systemDispatches ++ [(height, outcome.internalDispatches)]
          else node.systemDispatches })
  have named : (applied ++ failed).map DrainedFrame.id
      = ((decodeMembers L.crypto members []).decoded.zip outcome.members).map (·.1.1) ++
        (decodeMembers L.crypto members []).decodeFail.map fst := by
    rw [map_append, names, names']
  refine ⟨(applied ++ failed).map DrainedFrame.id, applied ++ failed, ?_, ?_, ?_, ?_, ?_⟩
  · rw [recordOutcome, custody', custody, named, foldl_append]
  · rw [recordOutcome, drained', drained, append_assoc]
  · intro id mem
    rw [named, mem_append] at mem
    refine ⟨members, decoded, decodeMembers_mem (mem.imp_left fun mem => ?_)⟩
    obtain ⟨⟨member, outcome⟩, zipped, rfl⟩ := mem_map.mp mem
    exact mem_map_of_mem (of_mem_zip zipped).1
  · intro id mem
    obtain ⟨record, made, rfl⟩ := mem_map.mp mem
    exact ⟨record, made, rfl, (mem_append.mp made).elim (kept record) (kept' record)⟩
  · exact fun record mem _ => .inl (mem_map_of_mem mem)

/-- Settling a block touches neither custody nor the drained records. -/
theorem settleBlock_books (height : Nat) (batch : FrameId) (disposition : Disposition)
    (node : OrderedNode C O J) :
    (settleBlock L height batch disposition node).2.books = node.books := by
  unfold settleBlock
  split <;> rfl

/-- A batch refused whole resolves nothing, and is recorded under its own id. -/
theorem settleBlock_resolves (frame : Bytes) (height : Nat) (reason : String)
    (node : OrderedNode C O J) :
    ∃ records, Resolves L frame node (settleBlock L height (frameId L.crypto frame) .rejected
      (node.pushDrained (frameId L.crypto frame) height .rejected (some reason))).2 [] records := by
  obtain ⟨custody, drained⟩ := mk.inj (settleBlock_books height
    (frameId L.crypto frame) .rejected
    (node.pushDrained (frameId L.crypto frame) height .rejected (some reason)))
  exact ⟨_, .of_records custody drained fun record mem _ => by rw [mem_singleton.mp mem]⟩

/-- A journaled batch resolves members, or is recorded under its own id. -/
theorem applyBatch_resolves (height : Nat) (frame : Bytes) (prepared : PreparedWork)
    (node : OrderedNode C O J) :
    ∃ ids records, Resolves L frame node (applyBatch L height frame prepared node).2 ids records := by
  unfold applyBatch
  split
  · obtain ⟨records, resolves⟩ :=
      settleBlock_resolves frame height "batch decode failed" node
    exact ⟨[], records, resolves⟩
  · rename_i decoded
    simp only
    split
    · exact ⟨[], [], .of_same rfl rfl⟩
    · rename_i e host j submitted
      obtain ⟨records, resolves⟩ := settleBlock_resolves frame height
        (memberReason e.display) { node with host := host, sink := j }
      exact ⟨[], records, resolves.congr rfl rfl⟩
    · rename_i outcome host j submitted
      obtain ⟨ids, records, resolves⟩ := recordOutcome_resolves height outcome
        { node with host := host, sink := j } decoded
      rw [raiseBarrier_snd]
      exact ⟨ids, records, resolves.congr rfl (settleBlock_books ..)⟩

/-- One delivery resolves members, or is recorded under its own id; skipped or discarded it does
neither. -/
theorem deliver_resolves (view : Nat) (frame : Bytes) (node : OrderedNode C O J) :
    ∃ ids records, Resolves L frame node (deliver L view frame node).2 ids records ∧
      (reaches node view = false →
        ids = [] ∧ ∀ record ∈ records, record.disposition = .discarded) := by
  have quiet : ∀ node' : OrderedNode C O J, node'.books = node.books → ∃ ids records,
      Resolves L frame node node' ids records ∧ (reaches node view = false →
        ids = [] ∧ ∀ record ∈ records, record.disposition = .discarded) := fun node' same =>
    ⟨[], [], .of_same (congrArg fst same) (congrArg snd same), fun _ => ⟨rfl, nofun⟩⟩
  unfold deliver
  simp only
  split
  · exact quiet node rfl
  rename_i live
  split
  · exact quiet node rfl
  split
  · -- past the ceiling everything is recorded as discarded
    unfold discard
    split
    · refine ⟨[], _, .of_records rfl rfl fun record mem kept => ?_, fun _ => ⟨rfl, ?_⟩⟩
      · obtain ⟨member, -, rfl⟩ := mem_map.mp mem
        exact absurd rfl kept
      · intro record mem
        obtain ⟨member, -, rfl⟩ := mem_map.mp mem
        rfl
    · refine ⟨[], _, .of_records rfl rfl fun record mem _ => ?_, fun _ => ⟨rfl, ?_⟩⟩
      · rw [mem_singleton.mp mem]
      · intro record mem
        rw [mem_singleton.mp mem]
  · rename_i below
    have reached : reaches node view = true := by simp [reaches, live, below]
    have live : ∀ node' : OrderedNode C O J, (∃ ids records,
        Resolves L frame node node' ids records) → ∃ ids records,
        Resolves L frame node node' ids records ∧ (reaches node view = false →
          ids = [] ∧ ∀ record ∈ records, record.disposition = .discarded) := by
      rintro node' ⟨ids, records, resolves⟩
      exact ⟨ids, records, resolves, fun skipped => by simp [reached] at skipped⟩
    split
    · refine live _ ?_
      obtain ⟨records, resolves⟩ :=
        settleBlock_resolves frame (node.viewBase + view) "batch replayed" node
      refine ⟨[], records, resolves.congr rfl ?_⟩
      simp only [refuseReplayed, settleBlock]
      rcases L.sink.sealBlock _ _ with ⟨_ | _, j⟩ <;> rfl
    · split
      · exact quiet node rfl
      · rename_i code host realized
        unfold journalBatch
        simp only
        split
        · exact quiet _ rfl
        split
        · exact quiet _ rfl
        rename_i j opened
        obtain ⟨ids, records, resolves⟩ := applyBatch_resolves
          (node.viewBase + view) frame _ { node with
            code := code, host := host, codeStall := none,
            appliedFloor := some (node.viewBase + view), sink := j }
        exact live _ ⟨ids, records, resolves.congr rfl rfl⟩

/-- What decides which deliveries of a drain are skipped or discarded. -/
def OrderedNode.gates (node : OrderedNode C O J) : Nat × Option Nat × Option Nat :=
  (node.viewBase, node.resumeFloor, node.viewCeiling)

theorem deliver_gates (view : Nat) (frame : Bytes) (node : OrderedNode C O J) :
    (deliver L view frame node).2.gates = node.gates :=
  deliver_keeps (fun _ _ _ _ _ _ _ _ _ _ _ => rfl) view frame node

section

variable (blind : ∀ node node' : OrderedNode C O J, node'.books = node.books → node'.gates = node.gates → P node → P node')
include blind

/-- What every delivery of a drain keeps, the drain keeps: `P` looks at custody, the drained records
and the gates. -/
theorem drainDeferred_keeps {queue : List (Nat × Bytes)}
    (step : ∀ delivery ∈ queue, ∀ node, P node → P (deliver L delivery.1 delivery.2 node).2)
    (count : DrainCount) {node : OrderedNode C O J} (start : P node) :
    P (drainDeferred L queue count node).2 := by
  induction queue generalizing count node with
  | nil => exact blind node _ rfl rfl start
  | cons delivery queue ih =>
    obtain ⟨view, frame⟩ := delivery
    have kept := step (view, frame) (mem_cons_self ..) node start
    have rest := fun count => ih (fun d mem => step d (mem_cons_of_mem _ mem)) count kept
    simp only [drainDeferred]
    rcases delivered : deliver L view frame node with ⟨outcome, mid⟩
    rw [delivered] at kept rest
    cases outcome with
    | passed | sealed => exact rest _
    | barrier | stalled | failed => exact blind mid _ rfl rfl kept

/-- The same for a whole drain. -/
theorem drainDelivered_keeps (delivered : List (Nat × Bytes)) {node : OrderedNode C O J}
    (step : ∀ delivery ∈ node.deferred ++ delivered, ∀ node, P node →
      P (deliver L delivery.1 delivery.2 node).2) (start : P node) :
    P (drainDelivered L delivered node).2 := by
  have kept := drainDeferred_keeps blind step ⟨0, none, none⟩ start
  unfold drainDelivered
  rcases drained : drainDeferred L (node.deferred ++ delivered) ⟨0, none, none⟩ node with ⟨_ | count, mid⟩
  · rw [drained] at kept
    exact kept
  rw [drained] at kept
  refine blind mid _ ?_ ?_ kept
  all_goals
    obtain ⟨applied, lastView, lastSealed⟩ := count
    cases lastView <;> cases lastSealed <;> simp only [advanceFinalized]
    all_goals first | rfl | (split <;> rfl)

end

end deliveries

/-! ## Flushes and carries -/

section flushes

variable {L} {node : OrderedNode C O J}

theorem proposeTo_books (orderer : Orderer) (members : List Bytes) (node : OrderedNode C O J) :
    (proposeTo L orderer members node).2.books = node.books := by
  unfold proposeTo proposeBatch
  rcases L.sink.pin (encodeBatch members) node.sink with ⟨_ | _, _⟩ <;> rfl

/-- A flush takes batches off the front of the queue and proposes them. -/
theorem flushTurns_spec (orderer : Orderer) (turns : Nat) (node : OrderedNode C O J) :
    (∃ rest, rest.Sublist node.custody.pendingBatch ∧
      (flushTurns L orderer turns node).2.books
        = ({ node.custody with pendingBatch := rest }, node.drained)) ∧
      ∀ batch ∈ (flushTurns L orderer turns node).1.proposed, ∀ member ∈ batch,
        ∃ id, (id, member) ∈ node.custody.pendingBatch := by
  induction turns generalizing node with
  | zero => exact ⟨⟨_, .refl _, rfl⟩, nofun⟩
  | succ turns ih =>
    have shorter : node.custody.takeOneBatch.2.pendingBatch.Sublist node.custody.pendingBatch :=
      drop_sublist _ _
    have peeled : ∀ member ∈ node.custody.takeOneBatch.1,
        ∃ id, (id, member) ∈ node.custody.pendingBatch := by
      intro member mem
      obtain ⟨⟨id, _⟩, taken, rfl⟩ := mem_map.mp mem
      exact ⟨id, mem_of_mem_take taken⟩
    simp only [flushTurns]
    split
    · exact ⟨⟨_, shorter, rfl⟩, nofun⟩
    have books := proposeTo_books (L := L) orderer node.custody.takeOneBatch.1
      { node with custody := node.custody.takeOneBatch.2 }
    split
    · rename_i eq
      rw [eq] at books
      exact ⟨⟨_, shorter, books⟩, by simpa using peeled⟩
    · rename_i proposed eq
      rw [eq] at books
      obtain ⟨custody, drained⟩ := mk.inj books
      obtain ⟨⟨rest, later, books'⟩, proposes⟩ := ih proposed
      rw [custody] at later books' proposes
      refine ⟨⟨rest, later.trans shorter, by rw [books', drained]; rfl⟩, ?_⟩
      intro batch mem member inside
      rcases mem_cons.mp mem with rfl | mem
      · exact peeled member inside
      · obtain ⟨id, queued⟩ := proposes batch mem member inside
        exact ⟨id, shorter.subset queued⟩

end flushes

/-! ## Events -/

section events

variable {L} {node node' : OrderedNode C O J} {id : FrameId} {frame : Bytes} {ids : List FrameId}
  {records : List DrainedFrame} {accepted : Set FrameId} {queue : List (FrameId × Bytes)}

/-- Custody is sound, and every accepted frame is held or drained. -/
structure Kept (L : Lane C O J) (accepted : Set FrameId) (node : OrderedNode C O J) : Prop where
  sound : node.custody.Sound L.crypto
  held : ∀ id ∈ accepted, id ∈ node.custody.outstanding ∨ Drained node id

/-- The queue names distinct held frames, and no held frame was drained. -/
structure Clean (node : OrderedNode C O J) : Prop where
  queued : node.custody.Queued
  live : ∀ id ∈ node.custody.outstanding, ¬ Drained node id

theorem mem_outstanding_iff {custody : Custody} :
    id ∈ custody.outstanding ↔ custody.outstanding[id]?.isSome :=
  Std.ExtTreeMap.mem_iff_isSome_getElem?

/-- Custody stays sound through a delivery. -/
theorem Resolves.sound (resolves : Resolves L frame node node' ids records)
    (sound : node.custody.Sound L.crypto) : node'.custody.Sound L.crypto := by
  rw [resolves.custody]
  exact (sound.releases ids).1

/-- What is held after a delivery was held before and was not resolved by it. -/
theorem Resolves.held_iff (resolves : Resolves L frame node node' ids records)
    (sound : node.custody.Sound L.crypto) (id : FrameId) :
    id ∈ node'.custody.outstanding ↔ id ∉ ids ∧ id ∈ node.custody.outstanding := by
  rw [mem_outstanding_iff, resolves.custody, (sound.releases ids).2 id]
  by_cases resolved : id ∈ ids <;> simp [resolved]

theorem Resolves.drained_mono (resolves : Resolves L frame node node' ids records)
    (drained : Drained node id) : Drained node' id := by
  obtain ⟨record, mem, named⟩ := drained
  exact ⟨record, resolves.drained ▸ mem_append_left _ mem, named⟩

/-- A frame leaves custody by a delivery only as drained. -/
theorem Kept.resolves (kept : Kept L accepted node)
    (resolves : Resolves L frame node node' ids records) : Kept L accepted node' := by
  refine ⟨resolves.sound kept.sound, fun id mem => ?_⟩
  rcases kept.held id mem with held | drained
  · by_cases resolved : id ∈ ids
    · obtain ⟨record, mem, named⟩ := resolves.recorded id resolved
      exact .inr ⟨record, resolves.drained ▸ mem_append_right _ mem, named⟩
    · exact .inl ((resolves.held_iff kept.sound id).mpr ⟨resolved, held⟩)
  · exact .inr (resolves.drained_mono drained)

/-- A delivery that resolves no queued frame, and whose own bytes are no held frame, leaves custody
clean. -/
theorem Clean.resolves (clean : Clean node) (sound : node.custody.Sound L.crypto)
    (resolves : Resolves L frame node node' ids records) (apart : ∀ id ∈ ids, id ∉ node.custody.queue)
    (whole : (∃ record ∈ records, record.disposition ≠ .discarded) →
      frameId L.crypto frame ∉ node.custody.outstanding) : Clean node' := by
  refine ⟨resolves.custody ▸ clean.queued.releases sound apart, ?_⟩
  rintro id held ⟨record, mem, named, kept⟩
  obtain ⟨unresolved, held⟩ := (resolves.held_iff sound id).mp held
  rw [resolves.drained, mem_append] at mem
  rcases mem with mem | mem
  · exact clean.live id held ⟨record, mem, named, kept⟩
  · rcases resolves.whole record mem kept with resolved | same
    · exact unresolved (named ▸ resolved)
    · exact whole ⟨record, mem, kept⟩ (same ▸ named ▸ held)

theorem reaches_congr (same : node'.gates = node.gates) (view : Nat) :
    reaches node' view = reaches node view := by
  simp only [OrderedNode.gates, Prod.mk.injEq] at same
  unfold reaches
  rw [same.1, same.2.1, same.2.2]

/-- A drain keeps what was accepted. -/
theorem Kept.drain (kept : Kept L accepted node) (delivered : List (Nat × Bytes)) :
    Kept L accepted (drainDelivered L delivered node).2 := by
  refine drainDelivered_keeps ?_ delivered ?_ kept
  · intro node node' books _ kept
    obtain ⟨custody, drained⟩ := mk.inj books
    exact ⟨custody ▸ kept.sound, by simpa [Drained, custody, drained] using kept.held⟩
  · intro delivery _ node kept
    obtain ⟨ids, records, resolves, -⟩ := deliver_resolves delivery.1 delivery.2 node
    exact kept.resolves resolves

/-- Within a drain custody only shrinks, and the queue and the gates stay. -/
structure Draining (L : Lane C O J) (start node : OrderedNode C O J) : Prop where
  clean : Clean node
  sound : node.custody.Sound L.crypto
  gates : node.gates = start.gates
  queue : node.custody.pendingBatch = start.custody.pendingBatch
  within : ∀ id ∈ node.custody.outstanding, id ∈ start.custody.outstanding

/-- A delivery that is untangled at the start of the drain. -/
theorem Draining.deliver {start : OrderedNode C O J} (draining : Draining L start node) {view : Nat}
    (untangled : reaches start view → frameId L.crypto frame ∉ start.custody.outstanding ∧
        ∀ member ∈ (decodeBatch frame).toOption.getD [],
          frameId L.crypto member ∉ start.custody.queue) :
    Draining L start (deliver L view frame node).2 := by
  obtain ⟨ids, records, resolves, skipped⟩ := deliver_resolves view frame node
  rw [reaches_congr draining.gates] at skipped
  refine ⟨draining.clean.resolves draining.sound resolves ?_ ?_, resolves.sound draining.sound,
    (deliver_gates view frame node).trans draining.gates, ?_, ?_⟩
  · intro id resolved queued
    cases reached : reaches start view with
    | false =>
      rw [(skipped reached).1] at resolved
      cases resolved
    | true =>
      obtain ⟨members, decoded, member, inside, rfl⟩ := resolves.member id resolved
      rw [Custody.queue, draining.queue] at queued
      exact (untangled reached).2 member (by rw [decoded]; exact inside) queued
  · rintro ⟨record, made, kept⟩ held
    cases reached : reaches start view with
    | false => exact kept ((skipped reached).2 record made)
    | true => exact (untangled reached).1 (draining.within _ held)
  · rw [resolves.custody, releases_pendingBatch, draining.queue]
  · exact fun id held => draining.within id ((resolves.held_iff draining.sound id).mp held).2

/-- An untangled drain leaves custody clean. -/
theorem Clean.drain (clean : Clean node) (sound : node.custody.Sound L.crypto)
    {delivered : List (Nat × Bytes)} (untangled : Untangled L node (.drain delivered)) :
    Clean (drainDelivered L delivered node).2 := by
  have start : Draining L node node := ⟨clean, sound, rfl, rfl, fun _ => id⟩
  refine (drainDelivered_keeps ?_ delivered ?_ start).clean
  · rintro mid mid' books gates ⟨clean, sound, gates', queue, within⟩
    obtain ⟨custody, drained⟩ := mk.inj books
    refine ⟨⟨custody ▸ clean.queued, ?_⟩, custody ▸ sound, gates.trans gates', custody ▸ queue,
      custody ▸ within⟩
    simpa [Drained, custody, drained] using clean.live
  · exact fun delivery mem mid draining => draining.deliver (untangled delivery mem)

/-- What a submission does to custody. -/
theorem submitFrame_cases (frame : Bytes) (node : OrderedNode C O J) :
    (submitFrame L frame node).2 = node ∨ ∃ id custody,
      node.custody.accept L.crypto frame = .ok (id, custody) ∧
        (submitFrame L frame node).2 = { node with custody := custody } := by
  unfold submitFrame
  split
  · exact .inl rfl
  · rename_i id custody accepted
    exact .inr ⟨id, custody, accepted, rfl⟩

/-- An accepted frame is held, and so is what was held before. -/
theorem held_of_accept {crypto : FrameCrypto} {custody custody' : Custody} {other : FrameId}
    (accepted : custody.accept crypto frame = .ok (id, custody')) :
    other ∈ custody'.outstanding ↔ other = id ∨ other ∈ custody.outstanding := by
  obtain ⟨rfl, ⟨held, rfl⟩ | ⟨origin, seq, -, -, -, rfl⟩⟩ := accept_cases accepted
  · exact ⟨.inr, fun named => named.elim (· ▸ held) id⟩
  · rw [hold, Std.ExtTreeMap.mem_insert, Std.compare_eq_iff_eq, @eq_comm _ other]

theorem Clean.submit (clean : Clean node) (untangled : Untangled L node (.submit frame)) :
    Clean (submitFrame L frame node).2 := by
  rcases submitFrame_cases frame node with same | ⟨id, custody, accepted, same⟩
  · rw [same]
    exact clean
  rw [same]
  refine ⟨clean.queued.accept accepted, fun other held drained => ?_⟩
  rcases (held_of_accept accepted).mp held with rfl | held
  · rw [(accept_cases accepted).1] at drained
    exact untangled drained
  · exact clean.live other held drained

theorem Kept.submit (kept : Kept L accepted node) (frame : Bytes) :
    Kept L accepted (submitFrame L frame node).2 := by
  rcases submitFrame_cases frame node with same | ⟨id, custody, ok, same⟩
  · rw [same]
    exact kept
  · rw [same]
    exact ⟨kept.sound.accept ok, fun other mem =>
      (kept.held other mem).imp_left fun held => (held_of_accept ok).mpr (.inr held)⟩

/-- Changes of the queue alone keep what was accepted. -/
theorem Kept.requeue (kept : Kept L accepted node)
    (books : node'.books = ({ node.custody with pendingBatch := queue }, node.drained)) :
    Kept L accepted node' := by
  obtain ⟨custody, drained⟩ := mk.inj books
  refine ⟨custody ▸ kept.sound.requeue queue, ?_⟩
  simpa [Drained, custody, drained] using kept.held

theorem Clean.requeue (clean : Clean node)
    (queued : Custody.Queued { node.custody with pendingBatch := queue })
    (books : node'.books = ({ node.custody with pendingBatch := queue }, node.drained)) :
    Clean node' := by
  obtain ⟨custody, drained⟩ := mk.inj books
  refine ⟨custody ▸ queued, ?_⟩
  simpa [Drained, custody, drained] using clean.live

/-- A cutover queues what is held and proposes from it. -/
theorem cutOverCarrying_spec (cut : Cutover) (node : OrderedNode C O J) :
    (∃ queue, (cutOverCarrying L cut node).2.books
        = ({ node.custody with pendingBatch := queue }, node.drained) ∧
      (node.custody.Queued → Custody.Queued { node.custody with pendingBatch := queue })) ∧
      ∀ batch ∈ (cutOverCarrying L cut node).1.proposed, ∀ member ∈ batch,
        ∃ (id : FrameId) (seq : Nat), node.custody.outstanding[id]? = some (seq, member) := by
  unfold cutOverCarrying cutOver
  rcases L.sink.cutover cut.epoch cut.viewBase cut.participants cut.residents node.sink with
    ⟨e | _, j⟩
  · exact ⟨⟨node.custody.pendingBatch, rfl, id⟩, nofun⟩
  have queued : (node.custody.carry cut.order).Queued := .carry cut.order
  obtain ⟨⟨rest, shorter, books⟩, proposes⟩ := flushTurns_spec cut.orderer
    maxFlushBatchesPerTurn { node with
      sink := j, viewBase := cut.viewBase, lastEngineView := none, finalizedView := none,
      viewCeiling := none, deferred := [], custody := node.custody.carry cut.order }
  refine ⟨⟨rest, books, fun _ => queued.sublist shorter⟩, fun batch mem member inside => ?_⟩
  obtain ⟨id, carried⟩ := proposes batch mem member inside
  exact ⟨id, queued.held id member carried⟩

/-- Every event keeps what was accepted. -/
theorem Kept.step (kept : Kept L accepted node) (event : NodeEvent) :
    Kept L accepted (nodeStep L event node).2 := by
  cases event with
  | submit frame => exact kept.submit frame
  | flush orderer =>
    obtain ⟨⟨rest, -, books⟩, -⟩ := flushTurns_spec orderer maxFlushBatchesPerTurn node
    exact kept.requeue books
  | drain delivered => exact kept.drain delivered
  | cutover cut =>
    obtain ⟨⟨queue, books, -⟩, -⟩ := cutOverCarrying_spec cut node
    exact kept.requeue books
  | ceiling | watch => exact ⟨kept.sound, kept.held⟩

/-- Every untangled event leaves custody clean. -/
theorem Clean.step (clean : Clean node) (sound : node.custody.Sound L.crypto) {event : NodeEvent}
    (untangled : Untangled L node event) : Clean (nodeStep L event node).2 := by
  cases event with
  | submit frame => exact clean.submit untangled
  | flush orderer =>
    obtain ⟨⟨rest, shorter, books⟩, -⟩ :=
      flushTurns_spec orderer maxFlushBatchesPerTurn node
    exact clean.requeue (clean.queued.sublist shorter) books
  | drain delivered => exact clean.drain sound untangled
  | cutover cut =>
    obtain ⟨⟨queue, books, queued⟩, -⟩ := cutOverCarrying_spec cut node
    exact clean.requeue (queued clean.queued) books
  | ceiling | watch => exact ⟨clean.queued, clean.live⟩

/-- From clean custody no drained frame is proposed. -/
theorem Clean.proposes (clean : Clean node) (sound : node.custody.Sound L.crypto) {event : NodeEvent}
    {batch : List Bytes} (mem : batch ∈ (nodeStep L event node).1) {member : Bytes}
    (inside : member ∈ batch) : ¬ Drained node (frameId L.crypto member) := by
  -- whatever is proposed is held
  have held : ∃ (id : FrameId) (seq : Nat), node.custody.outstanding[id]? = some (seq, member) := by
    cases event with
    | flush orderer =>
      obtain ⟨-, proposes⟩ := flushTurns_spec orderer maxFlushBatchesPerTurn node
      obtain ⟨id, queued⟩ := proposes batch mem member inside
      exact ⟨id, clean.queued.held id member queued⟩
    | cutover cut => exact (cutOverCarrying_spec cut node).2 batch mem member inside
    | submit | drain | ceiling | watch => cases mem
  obtain ⟨id, seq, found⟩ := held
  rw [(sound.named id seq member found).1]
  exact clean.live id (mem_outstanding_iff.mpr (by simp [found]))

end events

/-! ## Whole runs -/

section runs

variable {L} {node : OrderedNode C O J}

theorem runNode_append (events more : List NodeEvent) (node : OrderedNode C O J) :
    runNode L (events ++ more) node = runNode L more (runNode L events node) := foldl_append

theorem Kept.run {accepted : Set FrameId} (kept : Kept L accepted node) (events : List NodeEvent) :
    Kept L accepted (runNode L events node) := by
  induction events generalizing node with
  | nil => exact kept
  | cons event events ih => exact ih (kept.step event)

theorem sound_run (sound : node.custody.Sound L.crypto) (events : List NodeEvent) :
    (runNode L events node).custody.Sound L.crypto :=
  ((⟨sound, nofun⟩ : Kept L ∅ node).run events).sound

theorem Clean.run (clean : Clean node) (sound : node.custody.Sound L.crypto) {events : List NodeEvent}
    (untangled : UntangledAlong L events node) : Clean (runNode L events node) := by
  induction events generalizing node with
  | nil => exact clean
  | cons event events ih =>
    exact ih (clean.step sound untangled.1) (sound_run sound [event]) untangled.2

end runs

/-- Over every interleaving of submissions, flushes, drains and cutovers from empty custody:

* the custody counters are the sums over what is held, and the mempool caps hold;
* a frame that was accepted is held until a drained block resolves it;
* if no resolved frame is submitted again and no drain resolves a frame still queued here, the queue
  names distinct held frames, and no flush or cutover proposes a drained one. -/
theorem custody_run (L : Lane C O J) (start : OrderedNode C O J) (empty : start.custody = .empty)
    (nothing : start.drained = []) (events : List NodeEvent) :
    (runNode L events start).custody.Sound L.crypto ∧
      (∀ before frame rest id, events = before ++ .submit frame :: rest →
        (submitFrame L frame (runNode L before start)).1 = .ok id →
        id ∈ (runNode L events start).custody.outstanding ∨ Drained (runNode L events start) id) ∧
      (UntangledAlong L events start →
        (runNode L events start).custody.Queued ∧
        ∀ event, ∀ batch ∈ (nodeStep L event (runNode L events start)).1, ∀ member ∈ batch,
          ¬ Drained (runNode L events start) (frameId L.crypto member)) := by
  have sound : start.custody.Sound L.crypto := empty ▸ .empty L.crypto
  refine ⟨sound_run sound events, ?_, fun untangled => ?_⟩
  · rintro before frame rest id rfl accepted
    have submitted : Kept L {id} (submitFrame L frame (runNode L before start)).2 := by
      unfold submitFrame at accepted ⊢
      split at accepted
      · cases accepted
      rename_i ok
      obtain rfl := Except.ok.inj accepted
      refine ⟨(sound_run sound before).accept ok, fun other named => .inl ?_⟩
      exact (held_of_accept ok).mpr (.inl named)
    rw [runNode_append]
    exact (submitted.run rest).held id rfl
  · have clean : Clean start := by
      refine ⟨empty ▸ .empty, fun id held => ?_⟩
      rintro ⟨record, mem, -⟩
      rw [nothing] at mem
      cases mem
    have clean := clean.run sound untangled
    exact ⟨clean.queued, fun event batch mem member inside =>
      clean.proposes (sound_run sound events) mem inside⟩

/-- A signed op of the tallies: one more at `left`. -/
def tallyFrame : Bytes := framePreimageWithBlob .ed25519 [1] 0 ⟨"left", []⟩ none

/-- A frame that is flushed before its batch is drained leaves a clean custody. -/
theorem custody_run_flushed :
    (runNode (journaledLane tallyCrypto tallyRealize) [.submit tallyFrame, .flush fun _ => .ok (),
      .drain [(1, encodeBatch [tallyFrame])]] tallyNode).custody.Queued :=
  ((custody_run (journaledLane tallyCrypto tallyRealize) tallyNode rfl rfl _).2.2 (by decide)).1

/-- A frame still queued here when another node's batch resolves it stays queued: it is held no more,
and the next flush proposes it again. -/
theorem custody_run_requeued :
    let node := runNode (journaledLane tallyCrypto tallyRealize)
      [.submit tallyFrame, .drain [(1, encodeBatch [tallyFrame])]] tallyNode
    Drained node (frameId tallyCrypto tallyFrame) ∧
      frameId tallyCrypto tallyFrame ∉ node.custody.outstanding ∧
      frameId tallyCrypto tallyFrame ∈ node.custody.queue ∧
      [tallyFrame] ∈ (nodeStep (journaledLane tallyCrypto tallyRealize) (.flush fun _ => .ok ()) node).1 := by
  decide

end Ducktape
