import Ducktape.Host.Prepare
import Ducktape.Node.Custody

/-! # The ordered lane

An `OrderedNode` applies the batches its orderer delivers, in agreed order, one block a batch, and
journals every block through a `BlockSink`: the batch and its prepared work before the block runs,
what its units observed before anything commits, and the outcome once it settled. `drainDelivered`
is the drain with all its branches: the resume skip, the monotonicity check, the cutover ceiling,
the replay window, the code-swap stall, the undecodable batch, the block itself, and the observation
barrier. -/

namespace Ducktape

/-! ## Outcomes -/

/-- How a drained frame landed. -/
inductive Disposition
  | applied
  | rejected
  /-- Finalized at or past the cutover ceiling: never applied, never journaled. -/
  | discarded
  deriving DecidableEq

/-- The decoded contents of one drained frame. -/
structure DrainedOp where
  origin : Origin
  target : ModuleId
  payload : Bytes
  dispatches : List DispatchRecord
  deriving DecidableEq

/-- One frame the lane finished with. -/
structure DrainedFrame where
  id : FrameId
  height : Nat
  disposition : Disposition
  rootHash : StateRoot
  op : Option DrainedOp
  reason : Option String
  deriving DecidableEq

/-- The durable outcome of one block: how it landed, and every module's root after it. -/
structure BlockSeal where
  height : Nat
  disposition : Disposition
  roots : List (ModuleId × StateRoot)
  rootHash : StateRoot
  deriving DecidableEq

/-- A finalized boundary the node may serve from. -/
structure FinalizedBlock where
  height : Nat
  rootHash : StateRoot
  deriving DecidableEq

/-- `Display` of a boundary fault. -/
def FatalError.display (fault : FatalError) : String :=
  let phase := match fault.phase with
    | .commit => "commit_block"
    | .abort => "abort_block"
    | .prepare => "pending_items"
    | .witness => "commit witness"
  let source := fault.source.display
  s!"fatal block-boundary fault: module {fault.module} failed {phase}: {source} — registry state is indeterminate, this node must stop applying blocks"

/-- `Display` of a node error. -/
def NodeError.display : NodeError → String
  | .host e => let source := e.display; s!"host error: {source}"
  | .fatal fault => fault.display
  | .journal text => s!"recovery journal: {text}"
  | .outOfOrder height applied =>
    s!"delivered height {height} is at or below the applied height {applied}"
  | .codeStalled height _ reason => s!"module code for block {height} is not resolvable yet: {reason}"
  | .notAParticipant => "this node holds no consensus proposal rights"

/-- The submitter-facing reason of a rejection: the host's `Module(..)` wrapper taken off. -/
def memberReason (reason : String) : String :=
  if reason.startsWith "Module(" && reason.endsWith ")" then
    String.ofList ((reason.toList.drop 7).dropLast)
  else reason

/-! ## The recovery seam -/

/-- A write-ahead journal of finalized batches and their outcomes, over a sink state `J`. -/
structure BlockSink (J : Type) where
  /-- A locally packed batch, before it is proposed. -/
  pin : Bytes → J → Except NodeError Unit × J
  /-- A finalized batch about to be applied, with the block's prepared work. -/
  preApply : Nat → Bytes → PreparedWork → J → Except NodeError Unit × J
  /-- What the block's units observed, before its first module commits. -/
  witness : Nat → Witness → J → Except NodeError Unit × J
  /-- A settled block's outcome. -/
  sealBlock : BlockSeal → J → Except NodeError Unit × J
  /-- An epoch cutover: the new epoch, its base, its participants and its residents. -/
  cutover : Nat → Nat → List Bytes → List Bytes → J → Except NodeError Unit × J

/-- The host's pre-commit hook over a node's sink. -/
def sinkWitness {J : Type} (sink : BlockSink J) : CommitWitness J where
  record height witness j :=
    match sink.witness height witness j with
    | (.ok (), j) => (.ok (), j)
    | (.error e, j) => (.error e.display, j)

/-- How each block's `consensus_time` is derived from its height. -/
inductive ConsensusTimePolicy
  | heightIsTime
  | epoch (baseMs blockMs : Nat)
  deriving DecidableEq

/-- Stamp the time of a block. -/
def ConsensusTimePolicy.stamp : ConsensusTimePolicy → Nat → Nat
  | .heightIsTime, height => height
  | .epoch baseMs blockMs, height => baseMs + height * blockMs

/-! ## The node -/

/-- How many recently journaled blocks the replay window remembers. -/
def replayWindowHeights : Nat := 4096

/-- The fixed surroundings of an ordered node: how frames are checked, the recovery sink, and the
realization of the code the registry designates for a height. -/
structure Lane (C O J : Type) where
  crypto : FrameCrypto
  sink : BlockSink J
  /-- `realize_module_swaps`: the modules running the code designated for a height, or why its bytes
  cannot be resolved. -/
  realize : Nat → Host C O → HostState C → Except Error (Host C O × HostState C)

/-- A replicated host on the ordered lane. -/
structure OrderedNode (C O J : Type) where
  /-- The modules as they run now. -/
  code : Host C O
  host : HostState C
  sink : J
  events : List Event
  finalized : Option FinalizedBlock
  finalizedView : Option Nat
  viewBase : Nat
  lastEngineView : Option Nat
  drained : List DrainedFrame
  systemDispatches : List (Nat × List DispatchRecord)
  viewCeiling : Option Nat
  resumeFloor : Option Nat
  appliedFloor : Option Nat
  watchModule : Option ModuleId
  /-- Deliveries deferred past an observation barrier or a code stall. -/
  deferred : List (Nat × Bytes)
  custody : Custody
  /-- The batches already journaled, newest last. -/
  replayWindow : List (Nat × FrameId)
  codeStall : Option (Nat × Nat)
  timePolicy : ConsensusTimePolicy

section Node

variable {C O J : Type}

namespace OrderedNode

/-- `resume`: a node over recovered state; from genesis, `finalized` is `none`. -/
def resume (code : Host C O) (host : HostState C) (sink : J) (finalized : Option FinalizedBlock)
    (viewBase : Nat) : OrderedNode C O J where
  code := code
  host := host
  sink := sink
  events := []
  finalized := finalized
  finalizedView := none
  viewBase := viewBase
  lastEngineView := none
  drained := []
  systemDispatches := []
  viewCeiling := none
  resumeFloor := finalized.map (·.height)
  appliedFloor := finalized.map (·.height)
  watchModule := none
  deferred := []
  custody := .empty
  replayWindow := []
  codeStall := none
  timePolicy := .heightIsTime

variable (node : OrderedNode C O J)

/-- The composed root of the wrapped host. -/
def rootHash : StateRoot := Ducktape.rootHash node.code node.host.committed

/-- The newest entries the replay window keeps. -/
def boundWindow (window : List (Nat × FrameId)) : List (Nat × FrameId) :=
  window.drop (window.length - replayWindowHeights)

/-- `remember_applied`. -/
def rememberApplied (height : Nat) (batch : FrameId) : OrderedNode C O J :=
  { node with replayWindow := boundWindow (node.replayWindow ++ [(height, batch)]) }

/-- `seed_replay_window`. -/
def seedReplayWindow (applied : List (Nat × FrameId)) : OrderedNode C O J :=
  { node with replayWindow := boundWindow (node.replayWindow ++ applied) }

/-- Record one outcome that carries no op. -/
def pushDrained (id : FrameId) (height : Nat) (disposition : Disposition) (reason : Option String) :
    OrderedNode C O J :=
  { node with drained := node.drained ++ [⟨id, height, disposition, node.rootHash, none, reason⟩] }

/-- The seal of a block that settled now. -/
def sealNow (height : Nat) (disposition : Disposition) : BlockSeal :=
  ⟨height, disposition, moduleRoots node.code node.host, node.rootHash⟩

end OrderedNode

/-! ## Members -/

/-- The members of a batch, sorted out: those that decode, with their frame ids, and those that do
not, with the reason. -/
structure Members where
  decoded : List (FrameId × BlockOp)
  decodeFail : List (FrameId × String)
  deriving DecidableEq

/-- The codec's reason for refusing a member. -/
def decodeFailReason : NodeError → String
  | .host (.module reason) => reason
  | e => e.display

/-- The drain's member loop: a member whose frame id was seen before is skipped. -/
def decodeMembers (crypto : FrameCrypto) : List Bytes → List FrameId → Members
  | [], _ => ⟨[], []⟩
  | member :: members, seen =>
    let id := frameId crypto member
    if id ∈ seen then decodeMembers crypto members seen
    else
      let rest := decodeMembers crypto members (id :: seen)
      match decodeMember crypto member with
      | .ok op => { rest with decoded := (id, op) :: rest.decoded }
      | .error e => { rest with decodeFail := (id, decodeFailReason e) :: rest.decodeFail }

/-- The ops a block applies live. -/
def Members.ops (members : Members) : List BlockOp := members.decoded.map (·.2)

/-! ## The drain -/

/-- What one delivery came to. -/
inductive Delivered
  /-- Skipped or discarded: nothing was journaled. -/
  | passed
  | sealed
  /-- Sealed, and it moved the watched module. -/
  | barrier
  /-- The block's code is not resolvable yet. -/
  | stalled (reason : Error)
  | failed (e : NodeError)

section Drain

variable (L : Lane C O J)

/-- One outcome per member of a batch past the ceiling, or one under the batch's own id. -/
def discard (height : Nat) (frame : Bytes) (node : OrderedNode C O J) : OrderedNode C O J :=
  match decodeBatch frame with
  | .ok members =>
    { node with drained := node.drained ++ members.map fun member =>
        ⟨frameId L.crypto member, height, .discarded, node.rootHash, none, none⟩ }
  | .error _ => node.pushDrained (frameId L.crypto frame) height .discarded none

/-- Seal the block and remember its batch; a sink that fails stops the drain. -/
def settleBlock (height : Nat) (batch : FrameId) (disposition : Disposition) (node : OrderedNode C O J) :
    Delivered × OrderedNode C O J :=
  match L.sink.sealBlock (node.sealNow height disposition) node.sink with
  | (.error e, j) => (.failed e, { node with sink := j })
  | (.ok (), j) => (.sealed, { node with sink := j }.rememberApplied height batch)

/-- A batch the replay window knows: refused whole. -/
def refuseReplayed (height : Nat) (batch : FrameId) (node : OrderedNode C O J) :
    Delivered × OrderedNode C O J :=
  let node := node.pushDrained batch height .rejected (some "batch replayed")
  match settleBlock L height batch .rejected node with
  | (.sealed, node) => (.sealed, { node with appliedFloor := some height })
  | (delivered, node) => (delivered, node)

/-- The outcome of one decoded member, and its end of custody. -/
def recordMember (height : Nat) (node : OrderedNode C O J) (member : (FrameId × BlockOp) × MemberOutcome) :
    OrderedNode C O J :=
  let ((id, op), outcome) := member
  let (disposition, dispatches, reason) := match outcome with
    | .applied dispatches => (Disposition.applied, dispatches, none)
    | .rejected reason => (.rejected, [], some (memberReason reason))
  { node with
    custody := node.custody.release id
    drained := node.drained ++ [⟨id, height, disposition, node.rootHash,
      some ⟨op.origin, op.msg.target, op.msg.payload, dispatches⟩, reason⟩] }

/-- A member that did not decode: recorded under the block's root. -/
def recordDecodeFail (height : Nat) (node : OrderedNode C O J) (failed : FrameId × String) :
    OrderedNode C O J :=
  { node with custody := node.custody.release failed.1 }.pushDrained failed.1 height .rejected
    (some failed.2)

/-- The block-level disposition: a block is applied if it ran real work. -/
def BatchOutcome.disposition (outcome : BatchOutcome) : Disposition :=
  if outcome.members.any (fun m => m.dispatches?.isSome) || outcome.ranInternalWork then .applied
  else .rejected

/-- Record a settled block's outcome, member by member, then those that did not decode. -/
def recordOutcome (height : Nat) (members : Members) (outcome : BatchOutcome)
    (node : OrderedNode C O J) : OrderedNode C O J :=
  let node := { node with
    events := node.events ++ outcome.events
    systemDispatches := if outcome.ranInternalWork then
        node.systemDispatches ++ [(height, outcome.internalDispatches)]
      else node.systemDispatches }
  let node := (members.decoded.zip outcome.members).foldl (recordMember height) node
  members.decodeFail.foldl (recordDecodeFail height) node

/-- Recording outcomes touches custody, the drained records, the events and the dispatches of internal
work, and nothing else. -/
theorem recordOutcome_keeps {β : Type} (f : OrderedNode C O J → β)
    (blind : ∀ (node : OrderedNode C O J) custody drained events dispatches,
      f { node with custody := custody, drained := drained, events := events,
                    systemDispatches := dispatches } = f node)
    (height : Nat) (members : Members) (outcome : BatchOutcome) (node : OrderedNode C O J) :
    f (recordOutcome height members outcome node) = f node := by
  have folds : ∀ {α : Type} (step : OrderedNode C O J → α → OrderedNode C O J),
      (∀ node a, f (step node a) = f node) →
      ∀ (l : List α) node, f (l.foldl step node) = f node := by
    intro α step keeps l
    induction l with
    | nil => exact fun _ => rfl
    | cons a l ih => exact fun node => (ih _).trans (keeps node a)
  rw [recordOutcome, folds (recordDecodeFail height) fun node _ => blind node _ _ node.events
      node.systemDispatches,
    folds (recordMember height) fun node _ => blind node _ _ node.events node.systemDispatches]
  exact blind node node.custody node.drained _ _

/-- The host and the journal's end: what recording outcomes leaves alone. -/
def OrderedNode.applied (node : OrderedNode C O J) : Host C O × HostState C × J × Option Nat :=
  (node.code, node.host, node.sink, node.appliedFloor)

theorem recordOutcome_applied (height : Nat) (members : Members) (outcome : BatchOutcome)
    (node : OrderedNode C O J) :
    (recordOutcome height members outcome node).applied = node.applied :=
  recordOutcome_keeps OrderedNode.applied (fun _ _ _ _ _ => rfl) height members outcome node

/-- Did the watched module's root move? -/
def watchedMoved (before after : OrderedNode C O J) : Bool :=
  before.watchModule.any fun id =>
    moduleRoot before.code before.host id ≠ moduleRoot after.code after.host id

/-- The observation barrier: a sealed block that moved the watched module ends the drain. -/
def raiseBarrier (before : OrderedNode C O J) :
    Delivered × OrderedNode C O J → Delivered × OrderedNode C O J
  | (.sealed, settled) => (if watchedMoved before settled then .barrier else .sealed, settled)
  | other => other

/-- Run a journaled batch as one block. -/
def applyBatch (height : Nat) (frame : Bytes) (prepared : PreparedWork) (node : OrderedNode C O J) :
    Delivered × OrderedNode C O J :=
  let batch := frameId L.crypto frame
  match decodeBatch frame with
  | .error _ =>
    settleBlock L height batch .rejected
      (node.pushDrained batch height .rejected (some "batch decode failed"))
  | .ok members =>
    let members := decodeMembers L.crypto members []
    match submitBlockPrepared node.code (sinkWitness L.sink) ⟨height, node.timePolicy.stamp height⟩
        members.ops prepared node.host node.sink with
    | (.error (.fatal fault), host, j) => (.failed (.fatal fault), { node with host := host, sink := j })
    | (.error (.rejected e), host, j) =>
      let node := { node with host := host, sink := j }
      settleBlock L height batch .rejected
        (node.pushDrained batch height .rejected (some (memberReason e.display)))
    | (.ok outcome, host, j) =>
      let applied := recordOutcome height members outcome { node with host := host, sink := j }
      raiseBarrier node (settleBlock L height batch outcome.disposition applied)

/-- Journal a batch with its prepared work, then run it. -/
def journalBatch (height : Nat) (frame : Bytes) (node : OrderedNode C O J) :
    Delivered × OrderedNode C O J :=
  let node := { node with appliedFloor := some height }
  match prepareWork node.code node.host height with
  | .error e => (.failed (.host e), node)
  | .ok prepared =>
    match L.sink.preApply height frame prepared node.sink with
    | (.error e, j) => (.failed e, { node with sink := j })
    | (.ok (), j) => applyBatch L height frame prepared { node with sink := j }

/-- One delivery of the drain. -/
def deliver (view : Nat) (frame : Bytes) (node : OrderedNode C O J) :
    Delivered × OrderedNode C O J :=
  let height := node.viewBase + view
  let batch := frameId L.crypto frame
  if node.resumeFloor.any (height ≤ ·) then (.passed, node)
  else match node.appliedFloor.filter (height ≤ ·) with
  | some applied => (.failed (.outOfOrder height applied), node)
  | none =>
    if node.viewCeiling.any (· ≤ view) then (.passed, discard L height frame node)
    else if node.replayWindow.any (·.2 = batch) then refuseReplayed L height batch node
    else match L.realize height node.code node.host with
    | .error e => (.stalled e, node)
    | .ok (code, host) =>
      journalBatch L height frame { node with code := code, host := host, codeStall := none }

/-- `note_code_stall`: count one stall at `height`. -/
def noteCodeStall (height : Nat) (e : Error) (applied : Nat) (node : OrderedNode C O J) :
    NodeError × OrderedNode C O J :=
  let attempts := match node.codeStall.filter (·.1 = height) with
    | some (_, seen) => seen + 1
    | none => 1
  (.codeStalled height applied e.display, { node with codeStall := some (height, attempts) })

/-- What one drain has gone through so far. -/
structure DrainCount where
  applied : Nat
  lastView : Option Nat
  lastSealedView : Option Nat

/-- The drain over what is still deferred. -/
def drainDeferred : List (Nat × Bytes) → DrainCount → OrderedNode C O J →
    Except NodeError DrainCount × OrderedNode C O J
  | [], count, node => (.ok count, { node with deferred := [] })
  | (view, frame) :: rest, count, node =>
    let count := { count with applied := count.applied + 1, lastView := some view }
    match deliver L view frame node with
    | (.passed, node) => drainDeferred rest count node
    | (.sealed, node) => drainDeferred rest { count with lastSealedView := some view } node
    | (.barrier, node) =>
      (.ok { count with lastSealedView := some view }, { node with deferred := rest })
    | (.stalled e, node) =>
      -- the frame goes back to the front: the next drain retries it
      let (stall, node) := noteCodeStall (node.viewBase + view) e (count.applied - 1) node
      (.error stall, { node with deferred := (view, frame) :: rest })
    | (.failed e, node) => (.error e, { node with deferred := rest })

/-- The finalized boundary a drain leaves. -/
def advanceFinalized (count : DrainCount) (node : OrderedNode C O J) : OrderedNode C O J :=
  let node := match count.lastView with
    | none => node
    | some view => { node with lastEngineView := some view }
  match count.lastSealedView with
  | none => node
  | some view =>
    let height := node.viewBase + view
    if node.finalized.all (·.height < height) then
      { node with finalized := some ⟨height, node.rootHash⟩, finalizedView := some view }
    else node

/-- `drain_delivered`, with what the orderer delivered since the last drain. -/
def drainDelivered (delivered : List (Nat × Bytes)) (node : OrderedNode C O J) :
    Except NodeError Nat × OrderedNode C O J :=
  match drainDeferred L (node.deferred ++ delivered) ⟨0, none, none⟩ node with
  | (.error e, node) => (.error e, node)
  | (.ok count, node) => (.ok count.applied, advanceFinalized count node)

/-! ## A node's life -/

/-- `propose_batch`: a locally packed batch is pinned before it is proposed. -/
def proposeBatch (members : List Bytes) (node : OrderedNode C O J) :
    Except NodeError Unit × OrderedNode C O J :=
  let (pinned, j) := L.sink.pin (encodeBatch members) node.sink
  (pinned, { node with sink := j })

/-- `cutover`: journal the new epoch, then rebase heights. The carried frames are proposed anew. -/
def cutOver (epoch viewBase : Nat) (participants residents : List Bytes) (node : OrderedNode C O J) :
    Except NodeError Unit × OrderedNode C O J :=
  match L.sink.cutover epoch viewBase participants residents node.sink with
  | (.error e, j) => (.error e, { node with sink := j })
  | (.ok (), j) => (.ok (), { node with
      sink := j, viewBase := viewBase, lastEngineView := none, finalizedView := none,
      viewCeiling := none, deferred := [] })

/-- What a node's driver does with it. -/
inductive LaneEvent
  | drain (delivered : List (Nat × Bytes))
  | propose (members : List Bytes)
  | cutover (epoch viewBase : Nat) (participants residents : List Bytes)
  /-- `set_view_ceiling`. -/
  | ceiling (view : Nat)
  /-- `watch_module`. -/
  | watch (module : ModuleId)

/-- One event. -/
def laneStep : LaneEvent → OrderedNode C O J → Except NodeError Unit × OrderedNode C O J
  | .drain delivered, node =>
    let (drained, node) := drainDelivered L delivered node
    (drained.map fun _ => (), node)
  | .propose members, node => proposeBatch L members node
  | .cutover epoch viewBase participants residents, node =>
    cutOver L epoch viewBase participants residents node
  | .ceiling view, node => (.ok (), { node with viewCeiling := some view })
  | .watch module, node => (.ok (), { node with watchModule := some module })

/-- Only a code stall is survived: the driver retries it, and stops the process on anything else. -/
def NodeError.stops : NodeError → Bool
  | .codeStalled .. => false
  | _ => true

/-- Events in order, until one stops the process. -/
def runLane : List LaneEvent → OrderedNode C O J → OrderedNode C O J
  | [], node => node
  | event :: events, node =>
    match laneStep L event node with
    | (.ok (), node) => runLane events node
    | (.error e, node) => if e.stops then node else runLane events node

/-- The barrier changes the verdict, never the node. -/
@[simp] theorem raiseBarrier_snd (before : OrderedNode C O J) (settled : Delivered × OrderedNode C O J) :
    (raiseBarrier before settled).2 = settled.2 := by
  rcases settled with ⟨_ | _ | _ | _ | _, settled⟩ <;> rfl

/-! ## What a delivery leaves alone -/

section Keeps

/-- `f` looks at nothing a delivery changes. -/
def BlindTo {β : Type} (f : OrderedNode C O J → β) : Prop :=
  ∀ (node : OrderedNode C O J) code host sink events drained dispatches floor custody window stall,
    f { node with code := code, host := host, sink := sink, events := events, drained := drained,
                  systemDispatches := dispatches, appliedFloor := floor, custody := custody,
                  replayWindow := window, codeStall := stall } = f node

variable {L} {β : Type} {f : OrderedNode C O J → β} (blind : BlindTo f)
include blind

theorem settleBlock_keeps (height : Nat) (batch : FrameId) (disposition : Disposition)
    (node : OrderedNode C O J) : f (settleBlock L height batch disposition node).2 = f node := by
  unfold settleBlock
  split <;> exact blind node _ _ _ _ _ _ _ _ _ _

theorem applyBatch_keeps (height : Nat) (frame : Bytes) (prepared : PreparedWork)
    (node : OrderedNode C O J) : f (applyBatch L height frame prepared node).2 = f node := by
  unfold applyBatch
  split
  · rw [settleBlock_keeps blind]
    exact blind node _ _ _ _ _ _ _ _ _ _
  simp only
  split
  · exact blind node _ _ _ _ _ _ _ _ _ _
  · rw [settleBlock_keeps blind]
    exact blind node _ _ _ _ _ _ _ _ _ _
  · rw [raiseBarrier_snd, settleBlock_keeps blind,
      recordOutcome_keeps f fun node _ _ _ _ => blind node _ _ _ _ _ _ _ _ _ _]
    exact blind node _ _ _ _ _ _ _ _ _ _

/-- What a delivery leaves alone: everything but the host, the journal, the records of what happened,
the applied floor, custody, the replay window and the stall count. -/
theorem deliver_keeps (view : Nat) (frame : Bytes) (node : OrderedNode C O J) :
    f (deliver L view frame node).2 = f node := by
  unfold deliver
  simp only
  split
  · rfl
  split
  · rfl
  split
  · unfold discard
    split <;> exact blind node _ _ _ _ _ _ _ _ _ _
  split
  · simp only [refuseReplayed, settleBlock]
    rcases L.sink.sealBlock _ _ with ⟨_ | _, j⟩ <;> exact blind node _ _ _ _ _ _ _ _ _ _
  split
  · rfl
  unfold journalBatch
  simp only
  split
  · exact blind node _ _ _ _ _ _ _ _ _ _
  split
  · exact blind node _ _ _ _ _ _ _ _ _ _
  · rw [applyBatch_keeps blind]
    exact blind node _ _ _ _ _ _ _ _ _ _

end Keeps

end Drain

end Node

end Ducktape
