import Ducktape.Host.Units

/-! # Applying a block

The host's unit runner isolates a rejected unit by rolling the whole stage back and replaying the
accepted units, within a budget. `applyBlock` runs a block's units under it, drains the once-per-block
injection on top, has the witness made durable, and commits the touched modules at one boundary.
The submit entries differ only in where observations come from and in what the boundary commits. -/

namespace Ducktape

open Lib Function Observing

/-! ## The host's unit runner -/

/-- The running state of one block's apply. -/
structure BlockRun (C O : Type) where
  stages : Stages C O
  observer : Observing
  /-- Every module dispatched since the last rollback. -/
  touched : Finset ModuleId
  accepted : List AcceptedUnit
  replays : Nat

/-- The block after a run that ended in `machine` and added `log`. -/
def BlockRun.ran {C O : Type} (b : BlockRun C O) (machine : Machine C O Observing) (log : Log) :
    BlockRun C O :=
  { b with stages := machine.stages, observer := machine.observer,
           touched := b.touched ∪ log.touched }

section Runner

variable {C O : Type} (H : Host C O) (clock : BlockClock)

/-- `abort_block` on every touched module: start over from a fresh overlay. -/
def abortAll (touched : Finset ModuleId) (σ : Stages C O) : Stages C O := fun id =>
  if id ∈ touched ∧ id ∈ H.registry.ids then
    ⟨(σ id).committed, (H.registry.code id).fresh (σ id).committed⟩
  else σ id

/-- The replay budget ran out: every unit not yet attempted stays unattempted. -/
def BlockRun.budgetExhausted (b : BlockRun C O) : Bool := b.replays > maxBlockReplays

/-- A replay whose reads departed from the block's witness stops here. -/
def checkWitness (b : BlockRun C O) : Except SubmitError Unit :=
  match b.observer.divergence with
  | some divergence => .error (witnessFault divergence)
  | none => .ok ()

/-- The module a unit is attributed to: the target of its first step. -/
def unitModule (unit : AcceptedUnit) : ModuleId :=
  match unit.steps with
  | .op _ _ msg :: _ => msg.target
  | .ack source _ _ :: _ => source
  | [] => ""

/-- An accepted unit rejected on replay what it accepted before. -/
def nondeterminismFault (unit : AcceptedUnit) (e : Error) : SubmitError :=
  .fatal ⟨unitModule unit, .abort, .module
    s!"non-deterministic reject replaying accepted unit during per-unit isolation: {e.display}"⟩

/-- Replay the accepted units after a rollback, rebuilding their staged writes and overwriting their
traces. -/
def replayAccepted :
    List AcceptedUnit → BlockRun C O → Except SubmitError (List AcceptedUnit × BlockRun C O)
  | [], b => .ok ([], b)
  | unit :: units, b => do
      let (verdict, machine, log) := runSteps H Observing.watch clock unit.steps
        ⟨b.stages, b.observer.resume unit.entry⟩
      let b := b.ran machine log
      checkWitness b
      match verdict with
      | .error e => .error (nondeterminismFault unit e)
      | .ok () => do
          let (units, b) ← replayAccepted units b
          .ok ({ unit with events := log.events, dispatches := log.dispatches } :: units, b)

/-- Isolate a rejected unit: roll the whole stage back, replay only the accepted units, and count
one replay. -/
def isolate (b : BlockRun C O) : Except SubmitError (BlockRun C O) := do
  let rolled := { b with stages := abortAll H b.touched b.stages, touched := ∅ }
  let (accepted, b) ← replayAccepted H clock b.accepted rolled
  .ok { b with accepted := accepted, replays := b.replays + 1 }

/-- Run one unit's steps on top of the block's stage; a unit that rejects after reaching a module is
isolated, one that rejects before costs nothing. -/
def runUnit (steps : List Step) (b : BlockRun C O) :
    Except SubmitError (UnitVerdict × BlockRun C O) :=
  if b.budgetExhausted then .ok (.unattempted, b)
  else do
    let (entry, observer) := b.observer.beginUnit
    let (verdict, machine, log) := runSteps H Observing.watch clock steps ⟨b.stages, observer⟩
    let b := b.ran machine log
    checkWitness b
    match verdict with
    | .ok () =>
      .ok (.accepted ⟨.member 0, .member, steps, log.events, log.dispatches, entry⟩, b)
    | .error reason =>
      if log.touched ≠ ∅ then do
        let b ← isolate H clock b
        .ok (.rejected reason, b)
      else .ok (.rejected reason, b)

/-- Extend an accepted unit with further steps that must commit with it; a step failing rolls the
whole unit back. -/
def extendUnit (unit : AcceptedUnit) (steps : List Step) (b : BlockRun C O) :
    Except SubmitError (Except String AcceptedUnit × BlockRun C O) := do
  let (verdict, machine, log) := runSteps H Observing.watch clock steps ⟨b.stages, b.observer⟩
  let b := b.ran machine log
  checkWitness b
  match verdict with
  | .ok () =>
    .ok (.ok { unit with steps := unit.steps ++ steps, events := unit.events ++ log.events,
                         dispatches := unit.dispatches ++ log.dispatches }, b)
  | .error reason => do
      let b ← isolate H clock b
      .ok (.error reason.display, b)

section Equations

variable {H clock} {b : BlockRun C O} {steps : List Step} {reason : Error}
  {machine : Machine C O Observing} {log : Log}

theorem checkWitness_ran (undiverged : machine.observer.divergence = none) :
    checkWitness (b.ran machine log) = .ok () := by
  simp only [checkWitness, BlockRun.ran, undiverged]

/-- A unit within the budget with a failing step. -/
theorem runUnit_of_rejected (spare : b.budgetExhausted = false)
    (ran : runSteps H watch clock steps ⟨b.stages, b.observer.beginUnit.2⟩
      = (.error reason, machine, log)) (undiverged : machine.observer.divergence = none) :
    runUnit H clock steps b
      = if log.touched ≠ ∅ then
          (isolate H clock (b.ran machine log)).map fun b => (.rejected reason, b)
        else .ok (.rejected reason, b.ran machine log) := by
  simp only [runUnit, spare, ran, checkWitness_ran undiverged]
  rfl

end Equations

/-- Open a call's authority entry and decide it against the live staged state, unless the replay
budget ran out. -/
def decideAuthority (call : PreparedCall) (b : BlockRun C O) :
    Except SubmitError (Option Verdict × BlockRun C O) :=
  if b.budgetExhausted then .ok (none, b)
  else do
    let (_, observer) := b.observer.beginUnit
    let (authority, observer) := (callAuthority H.wire call).run
      (Observing.watch.observe (H.registry.hostAnswer b.stages clock.committed)) observer
    let b := { b with observer := observer }
    checkWitness b
    match authority with
    | .ok verdict => .ok (some verdict, b)
    | .error e => .error (authorityFault e)

/-- The host's unit runner. -/
def hostUnits : Units (BlockRun C O) where
  runUnit := runUnit H clock
  extendUnit := extendUnit H clock
  authority := decideAuthority H clock
  accept unit b := { b with accepted := b.accepted ++ [unit] }

end Runner

/-! ## The block -/

/-- What a host holds between blocks: every module's committed state, and the clock of the last
committed block. -/
structure HostState (C : Type) where
  committed : ModuleId → C
  clock : Nat × Nat

/-- The result of applying a batch of ops as one block. -/
structure BatchOutcome where
  rootHash : StateRoot
  members : List MemberOutcome
  calls : List CallRecord
  deliveries : List DeliveryRecord
  events : List Event
  systemDispatches : List DispatchRecord
  prepared : PreparedWork
  witness : Witness
  deriving DecidableEq

/-- The pre-commit hook that makes a block's witness durable, over a sink state `J`. -/
structure CommitWitness (J : Type) where
  record : Nat → Witness → J → Except String Unit × J

/-- The hook of drivers that keep no journal. -/
def noWitness : CommitWitness Unit where
  record _ _ _ := (.ok (), ())

/-- The block's own coordinates. -/
structure BlockContext where
  height : Nat
  consensusTime : Nat
  deriving DecidableEq, Inhabited

/-- An accepted unit's trace lands in its slot. -/
def fillSlot (prepared : PreparedWork) (tables : Tables) (unit : AcceptedUnit) : Tables :=
  match unit.slot, unit.resolved with
  | .member i, .member =>
    { tables with
      members := update tables.members i (some (.applied unit.dispatches)) }
  | .call i, .call disposition =>
    match prepared.calls[i]? with
    | none => tables
    | some call =>
      { tables with
        calls := update tables.calls i
          (some ⟨call.enqueued, call.id, disposition, unit.dispatches⟩) }
  | .delivery i, .delivery disposition =>
    match prepared.deliveries[i]? with
    | none => tables
    | some delivery =>
      { tables with
        deliveries := update tables.deliveries i
          (some ⟨delivery.item, delivery.target, disposition, unit.dispatches⟩) }
  -- unreachable: an accepted unit resolves to its own slot kind
  | _, _ => tables

/-- The accepted units' traces land in their slots. -/
def fillSlots (prepared : PreparedWork) (tables : Tables) (accepted : List AcceptedUnit) : Tables :=
  accepted.foldl (fillSlot prepared) tables

/-- The first `n` slots, unwrapped. -/
def Table.collect {α : Type} (table : Table α) (n : Nat) : List α := (List.range n).filterMap table

section Apply

variable {C O J : Type} (H : Host C O)

/-- Bind executable code to its state. -/
def moduleCommitment (root : StateRoot) (codeHash : Option Bytes) : StateRoot :=
  match codeHash with
  | none => root
  | some code =>
    H.sha256 (utf8 "ducktape.module" ++ u64le code.length ++ code ++ root)

/-- The root hash over every registered module, in registry order. -/
def rootHash (committed : ModuleId → C) : StateRoot :=
  let pair (id : ModuleId) : Bytes :=
    let bytes := utf8 id
    u64le bytes.length ++ bytes ++
      moduleCommitment H ((H.registry.code id).root (committed id)) (H.registry.code id).codeHash
  H.sha256 (u64le H.registry.ids.length ++ H.registry.ids.flatMap pair)

/-- The block boundary over `ids`: the live path commits every touched module, recovery only those
in `commitOnly`. A commit that fails is fatal, with the modules before it already committed. -/
def commitBoundary (touched : Finset ModuleId) (commitOnly : Option (Finset ModuleId))
    (σ : Stages C O) : List ModuleId → (ModuleId → C) → Except SubmitError Unit × (ModuleId → C)
  | [], committed => (.ok (), committed)
  | id :: ids, committed =>
    if id ∈ touched ∧ commitOnly.all (id ∈ ·) then
      match (H.registry.code id).commit (σ id).committed (σ id).overlay with
      | .ok c => commitBoundary touched commitOnly σ ids (update committed id c)
      | .error source => (.error (.fatal ⟨id, .commit, source⟩), committed)
    else commitBoundary touched commitOnly σ ids committed

/-- The once-per-block injection, on top of every accepted unit: the block's last observed entry. -/
def drainInjection (clock : BlockClock) (prepared : PreparedWork) (b : BlockRun C O) :
    Except SubmitError (BlockRun C O × Log) := do
  let queue : List QueuedOp := (prepared.advance.map fun msg => (.system, .direct, msg)).toList
  let (drained, machine, log) := drainQueue H Observing.watch clock queue
    ⟨b.stages, b.observer.beginUnit.2⟩
  let b := b.ran machine log
  checkWitness b
  match drained with
  | .error reason => .error (.rejected reason)
  | .ok () => .ok (b, log)

/-- Everything a block does before its witness is recorded: its units, the injection, and the
witness they leave. -/
def stageBlock (clock : BlockClock) (ops : List BlockOp) (prepared : PreparedWork)
    (observation : Observation) (admission : Admission) (committed : ModuleId → C) :
    Except SubmitError (Tables × BlockRun C O × Log × Witness) := do
  let start : BlockRun C O :=
    ⟨H.registry.boundary committed, .new observation, ∅, [], 0⟩
  let (tables, b) ← runUnits (hostUnits H clock) H.wire admission ops prepared start
  let (b, log) ← drainInjection H clock prepared b
  match b.observer.finish with
  | .error divergence => .error (witnessFault divergence)
  | .ok witness => .ok (fillSlots prepared tables b.accepted, b, log, witness)

/-- The shared block engine behind every submit entry. A failure before the boundary leaves the
committed states as they were. -/
def applyBlock (hook : CommitWitness J) (ctx : BlockContext) (ops : List BlockOp)
    (prepared : PreparedWork) (observation : Observation) (admission : Admission)
    (commitOnly : Option (Finset ModuleId)) (host : HostState C) (sink : J) :
    Except SubmitError BatchOutcome × HostState C × J :=
  let clock : BlockClock := ⟨ctx.height, ctx.consensusTime, host.clock⟩
  match stageBlock H clock ops prepared observation admission host.committed with
  | .error e => (.error e, host, sink)
  | .ok (tables, b, log, witness) =>
    match hook.record ctx.height witness sink with
    | (.error reason, sink) =>
      (.error (.fatal ⟨dispatchModuleId, .witness, .module reason⟩), host, sink)
    | (.ok (), sink) =>
      match commitBoundary H b.touched commitOnly b.stages H.registry.ids host.committed with
      | (.error e, committed) => (.error e, { host with committed := committed }, sink)
      | (.ok (), committed) =>
        (.ok { rootHash := rootHash H committed,
               members := tables.members.collect ops.length,
               calls := tables.calls.collect prepared.calls.length,
               deliveries := tables.deliveries.collect prepared.deliveries.length,
               events := b.accepted.flatMap (·.events) ++ log.events,
               systemDispatches := log.dispatches,
               prepared := prepared,
               witness := witness },
          ⟨committed, (ctx.height, ctx.consensusTime)⟩, sink)

/-- The ordered lane's entry: live, over work the caller prepared and journaled. -/
def submitBlockPrepared (hook : CommitWitness J) (ctx : BlockContext) (ops : List BlockOp)
    (prepared : PreparedWork) (host : HostState C) (sink : J) :
    Except SubmitError BatchOutcome × HostState C × J :=
  applyBlock H hook ctx ops prepared .live .batch none host sink

/-- Recovery's forward replay of a journaled block. -/
def submitBlockReplaying (hook : CommitWitness J) (ctx : BlockContext) (ops : List BlockOp)
    (prepared : PreparedWork) (witness : Option Witness) (host : HostState C) (sink : J) :
    Except SubmitError BatchOutcome × HostState C × J :=
  let observation := match witness with
    | some witness => .journaled witness ∅
    | none => .live
  applyBlock H hook ctx ops prepared observation .batch none host sink

/-- Recovery's selective commit: the modules outside `commitOnly` already stand past the block, and
the witness stands in for their dispatches. -/
def submitBlockCommitting (hook : CommitWitness J) (ctx : BlockContext) (ops : List BlockOp)
    (prepared : PreparedWork) (witness : Option Witness) (commitOnly : Finset ModuleId)
    (host : HostState C) (sink : J) : Except SubmitError BatchOutcome × HostState C × J :=
  let observation := match witness with
    | some witness => .journaled witness (H.registry.ids.toFinset \ commitOnly)
    | none => .live
  applyBlock H hook ctx ops prepared observation .batch (some commitOnly) host sink

end Apply

/-! ## Block-level facts of an outcome -/

/-- The dispatches a block ran beside its members. -/
def BatchOutcome.internalDispatches (outcome : BatchOutcome) : List DispatchRecord :=
  outcome.calls.flatMap (·.dispatches) ++ outcome.deliveries.flatMap (·.dispatches) ++
    outcome.systemDispatches

/-- Did the block run any dispatch beside its members? -/
def BatchOutcome.ranInternalWork (outcome : BatchOutcome) : Bool :=
  outcome.calls.any (·.dispatches ≠ []) || outcome.deliveries.any (·.dispatches ≠ []) ||
    outcome.systemDispatches ≠ []

/-- A member's own dispatches, if it applied. -/
def MemberOutcome.dispatches? : MemberOutcome → Option (List DispatchRecord)
  | .applied dispatches => some dispatches
  | .rejected _ => none

/-- Whether the block ran real work, and its aggregate dispatch trace. -/
def BatchOutcome.intoTrace (outcome : BatchOutcome) : Bool × List DispatchRecord :=
  let applied := outcome.members.filterMap MemberOutcome.dispatches?
  (outcome.ranInternalWork || !applied.isEmpty, applied.flatten ++ outcome.internalDispatches)

end Ducktape
