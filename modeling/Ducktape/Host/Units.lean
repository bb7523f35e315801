import Ducktape.Host.Drain

/-! # A block's units: members, calls and deliveries

The control flow of a block over an abstract unit runner `Units β`: a runner attempts a unit on top
of what the block has staged, extends an accepted unit by further steps that must commit with it,
and decides a call's authority. The members run first, then the prepared calls with their
finalizers, then the prepared deliveries with their acknowledgments.

The host's runner, which rolls back and replays, is in `Ducktape.Host.Block`; a runner that simply
composes the accepted units in order is in `Ducktape.Host.Sequential`. `Ducktape.Host.Lockstep`
compares two runners over a whole block. -/

namespace Ducktape

open Lib

/-! ## Prepared work and outcomes -/

/-- One queued call the block runs. -/
structure PreparedCall where
  enqueued : Nat
  id : CallId
  account : AccountNumber
  generation : Nat
  target : ModuleId
  payload : Bytes
  cause : Cause
  deriving DecidableEq

/-- One queued item the block delivers. -/
structure PreparedDelivery where
  item : ItemRef
  target : ModuleId
  payload : Bytes
  cause : Cause
  deriving DecidableEq

/-- The block's internal work, read from pre-block committed state. -/
structure PreparedWork where
  advance : Option Msg
  calls : List PreparedCall
  deliveries : List PreparedDelivery
  deriving DecidableEq, Inhabited

/-- One submitted op: the frame's verified origin and its message. The frame's content id is carried
by no step of the block. -/
structure BlockOp where
  origin : Origin
  msg : Msg
  deriving DecidableEq

/-- The host's authority verdict on a queued call. -/
inductive Verdict
  | admitted
  | refused (refusal : Refusal)
  deriving DecidableEq

/-- The outcome of one member op. -/
inductive MemberOutcome
  | applied (dispatches : List DispatchRecord)
  | rejected (reason : String)
  deriving DecidableEq

/-- How a call unit ended. -/
inductive CallDisposition
  | applied
  | rejected (reason : String)
  | refused (refusal : Refusal)
  | unrepresentable (attempted : Attempt)
  | notFinalized (reason : String)
  deriving DecidableEq

/-- What one prepared call came to. -/
structure CallRecord where
  enqueued : Nat
  id : CallId
  disposition : CallDisposition
  dispatches : List DispatchRecord
  deriving DecidableEq

/-- How a delivery unit ended. -/
inductive DeliveryDisposition
  | applied
  | failed (reason : String)
  | unrepresentable
  | notFinalized (reason : String)
  deriving DecidableEq

/-- What one prepared delivery came to. -/
structure DeliveryRecord where
  item : ItemRef
  target : ModuleId
  disposition : DeliveryDisposition
  dispatches : List DispatchRecord
  deriving DecidableEq

/-- How a block treats a member that rejects. -/
inductive Admission
  /-- The member is isolated and the block goes on. -/
  | batch
  /-- The member fails the whole block. -/
  | sole
  deriving DecidableEq

/-- Which outcome slot an accepted unit's trace lands in. -/
inductive Slot
  | member (index : Nat)
  | call (index : Nat)
  | delivery (index : Nat)
  deriving DecidableEq

/-- What an accepted unit resolved to. -/
inductive Resolved
  | member
  | call (disposition : CallDisposition)
  | delivery (disposition : DeliveryDisposition)
  deriving DecidableEq

/-- One accepted unit: the steps needed to replay it, its trace, and its entry in the witness. -/
structure AcceptedUnit where
  slot : Slot
  resolved : Resolved
  steps : List Step
  events : List Event
  dispatches : List DispatchRecord
  entry : Nat
  deriving DecidableEq

/-- What one unit attempt came to. -/
inductive UnitVerdict
  | accepted (unit : AcceptedUnit)
  | rejected (reason : Error)
  /-- The replay budget was exhausted before this unit ran. -/
  | unattempted
  deriving DecidableEq

/-- The block-boundary phase a module failed in. -/
inductive BoundaryPhase
  | commit
  | abort
  | prepare
  | witness
  deriving DecidableEq

/-- A node-local fault at the block boundary. -/
structure FatalError where
  module : ModuleId
  phase : BoundaryPhase
  source : Error
  deriving DecidableEq

/-- The two ways a block can fail: deterministically, or by a node-local fault. -/
inductive SubmitError
  | rejected (reason : Error)
  | fatal (fault : FatalError)
  deriving DecidableEq

/-- The live authority read failed on this node mid-block. -/
def authorityFault (e : Error) : SubmitError := .fatal ⟨identityModuleId, .prepare, e⟩

/-- A replay's reads departed from the witness it replays. -/
def witnessFault (d : Divergence) : SubmitError :=
  .fatal ⟨d.module, .witness, .module s!"witness divergence: {d.reason}"⟩

/-- The reason an unattempted unit carries. -/
def replayBudgetReason : String := s!"block replay budget exhausted ({maxBlockReplays})"

/-! ## Call authority -/

/-- The authority check on a queued call: the account must be a live program executed by the call's
requester, at the generation the call was queued under. -/
def callAuthority (wire : Wire) (call : PreparedCall) : Guest (Except Error Verdict) := do
  let answer ← Guest.query identityModuleId (wire.identityQuery.encode (.get call.account))
  match answer with
  | .error (.unknownModule _) => return .ok (.refused .notAProgram)
  | .error e => return .error (.module s!"identity: account read: {e.display}")
  | .ok bytes =>
    match wire.identityReply.decode bytes with
    | .error e => return .error (.module s!"identity: account read: {e}")
    | .ok (.account none) => return .ok (.refused .notAProgram)
    | .ok (.account (some view)) =>
      match view.control with
      | .keys => return .ok (.refused .notAProgram)
      | .revoked _ => return .ok (.refused .revoked)
      | .program _ executor generation standing =>
        if executor ≠ call.id.requester then return .ok (.refused .wrongExecutor)
        else if generation ≠ call.generation then return .ok (.refused .staleGeneration)
        else match standing with
          | .active => return .ok .admitted
          | .suspended => return .ok (.refused .suspended)
    | .ok other =>
      let shape := wire.identityReply.debug other
      return .error (.module s!"identity: account read answered {shape}")

/-! ## The steps of internal units -/

/-- The unit of a submitted op. -/
def memberStep (op : BlockOp) : Step := .op op.origin .direct op.msg

/-- A call's unit: the target op, run as the program account. -/
def callStep (call : PreparedCall) : Step :=
  .op (.program call.account) call.cause ⟨call.target, call.payload⟩

/-- The finalizer recording `outcome` for `call` at the dispatch module. -/
def completeCallStep (wire : Wire) (call : PreparedCall) (outcome : CallOutcome) : Step :=
  .op .system call.cause
    ⟨dispatchModuleId, wire.dispatchMsg.encode (.completeCall call.enqueued call.id outcome)⟩

/-- A delivery's unit: the item run at its target as the source's follow-up. -/
def deliveryStep (delivery : PreparedDelivery) : Step :=
  .op (.module delivery.item.source) delivery.cause ⟨delivery.target, delivery.payload⟩

/-- The acknowledgment reporting `outcome` for `delivery` to its source. -/
def ackStep (delivery : PreparedDelivery) (outcome : DeliveryOutcome) : Step :=
  .ack delivery.item.source delivery.cause ⟨delivery.item.item, delivery.target, outcome⟩

/-- The disposition a recorded outcome resolves a call to. -/
def callDisposition : CallOutcome → CallDisposition
  | .applied _ _ => .applied
  | .rejected reason => .rejected reason
  | .refused refusal => .refused refusal
  | .unrepresentable attempted => .unrepresentable attempted

/-- What the fixed marker says was attempted, for an outcome that has the marker to fall back to. -/
def callFallback : CallOutcome → Option Attempt
  | .applied _ _ => some .applied
  | .rejected _ => some .rejected
  | .refused _ => some .refused
  | .unrepresentable _ => none

/-- The disposition an acknowledged outcome resolves a delivery to. -/
def deliveryDisposition : DeliveryOutcome → DeliveryDisposition
  | .applied => .applied
  | .failed reason => .failed reason
  | .unrepresentable => .unrepresentable

/-! ## Unit runners -/

/-- What a block needs of a unit runner with state `β`. -/
structure Units (β : Type) where
  /-- Attempt a unit. -/
  runUnit : List Step → β → Except SubmitError (UnitVerdict × β)
  /-- Extend an accepted unit by steps that must commit with it, or roll it back whole. -/
  extendUnit : AcceptedUnit → List Step → β → Except SubmitError (Except String AcceptedUnit × β)
  /-- Open a call's authority entry and decide it, unless the replay budget ran out. -/
  authority : PreparedCall → β → Except SubmitError (Option Verdict × β)
  /-- Add an accepted unit to the block. -/
  accept : AcceptedUnit → β → β

section Control

variable {β ρ : Type} (U : Units β) (wire : Wire)

/-- Outcome slots, filled as units end. -/
abbrev Table (α : Type) := Nat → Option α

/-- Run a list of items in order, each through `turn`, collecting the records of those that accepted
no unit. -/
def runTurns {ι : Type} (turn : Nat → ι → β → Except SubmitError (Option ρ × β)) :
    Nat → List ι → Table ρ → β → Except SubmitError (Table ρ × β)
  | _, [], table, b => .ok (table, b)
  | i, item :: items, table, b => do
      let (record, b) ← turn i item b
      let table := match record with
        | some record => Function.update table i (some record)
        | none => table
      runTurns turn (i + 1) items table b

/-- One member as a unit. `none` when the unit was accepted. -/
def memberTurn (admission : Admission) (slot : Nat) (op : BlockOp) (b : β) :
    Except SubmitError (Option MemberOutcome × β) := do
  let (verdict, b) ← U.runUnit [memberStep op] b
  match verdict with
  | .accepted unit =>
    .ok (none, U.accept { unit with slot := .member slot, resolved := .member } b)
  | .rejected reason =>
    -- the single-op contract: nothing committed and nothing consumed
    if admission = .sole then .error (.rejected reason)
    else .ok (some (.rejected reason.display), b)
  | .unattempted => .ok (some (.rejected replayBudgetReason), b)

/-- Record an outcome in a standalone unit: accepted into `slot`, left queued when unattempted, and
handed to `onReject` when the source refuses it. -/
def settle (slot : Slot) (resolved : Resolved) (step : Step) (notFinalized : String → ρ)
    (onReject : Error → β → Except SubmitError (Option ρ × β)) (b : β) :
    Except SubmitError (Option ρ × β) := do
  let (verdict, b) ← U.runUnit [step] b
  match verdict with
  | .accepted unit => .ok (none, U.accept { unit with slot := slot, resolved := resolved } b)
  | .unattempted => .ok (some (notFinalized replayBudgetReason), b)
  | .rejected reason => onReject reason b

/-- The record of a call that stays queued. -/
def callNotFinalized (call : PreparedCall) (reason : String) : CallRecord :=
  ⟨call.enqueued, call.id, .notFinalized reason, []⟩

/-- One attempt to record a call's outcome. -/
def settleCall (slot : Nat) (call : PreparedCall) (outcome : CallOutcome)
    (onReject : Error → β → Except SubmitError (Option CallRecord × β)) (b : β) :
    Except SubmitError (Option CallRecord × β) :=
  settle U (.call slot) (.call (callDisposition outcome)) (completeCallStep wire call outcome)
    (callNotFinalized call) onReject b

/-- Record a call's outcome, falling back to the fixed marker when the dispatch module rejects the
real outcome, and leaving the call queued when even the marker cannot be recorded. -/
def finalizeCall (slot : Nat) (call : PreparedCall) (outcome : CallOutcome) (b : β) :
    Except SubmitError (Option CallRecord × β) :=
  let queued (reason : Error) (b : β) : Except SubmitError (Option CallRecord × β) :=
    .ok (some (callNotFinalized call reason.display), b)
  match callFallback outcome with
  | none => settleCall U wire slot call outcome queued b
  | some attempted =>
    settleCall U wire slot call outcome
      (fun _ b => settleCall U wire slot call (.unrepresentable attempted) queued b) b

/-- The outcome an accepted call unit completes with: its root dispatch's declared output and
stamp. -/
def appliedOutcome (unit : AcceptedUnit) : CallOutcome :=
  match unit.dispatches with
  | [] => .applied [] []
  | root :: _ => .applied (root.output.getD []) root.assigned

/-- One prepared call as a unit. `none` when a unit was accepted for it. -/
def runCall (slot : Nat) (call : PreparedCall) (verdict : Option Verdict) (b : β) :
    Except SubmitError (Option CallRecord × β) :=
  match verdict with
  | none => .ok (some (callNotFinalized call replayBudgetReason), b)
  | some (.refused refusal) => finalizeCall U wire slot call (.refused refusal) b
  | some .admitted => do
      let (verdict, b) ← U.runUnit [callStep call] b
      match verdict with
      | .unattempted => .ok (some (callNotFinalized call replayBudgetReason), b)
      | .rejected reason => finalizeCall U wire slot call (.rejected reason.display) b
      | .accepted unit =>
        let (extended, b) ← U.extendUnit unit [completeCallStep wire call (appliedOutcome unit)] b
        match extended with
        | .ok unit =>
          .ok (none, U.accept { unit with slot := .call slot, resolved := .call .applied } b)
        | .error _ => finalizeCall U wire slot call (.unrepresentable .applied) b

/-- A call's turn: its authority is decided, then it runs. -/
def callTurn (slot : Nat) (call : PreparedCall) (b : β) :
    Except SubmitError (Option CallRecord × β) := do
  let (verdict, b) ← U.authority call b
  runCall U wire slot call verdict b

/-- The record of an item that stays queued. -/
def deliveryNotFinalized (delivery : PreparedDelivery) (reason : String) : DeliveryRecord :=
  ⟨delivery.item, delivery.target, .notFinalized reason, []⟩

/-- One attempt to acknowledge a delivery's outcome. -/
def settleDelivery (slot : Nat) (delivery : PreparedDelivery) (outcome : DeliveryOutcome)
    (onReject : Error → β → Except SubmitError (Option DeliveryRecord × β)) (b : β) :
    Except SubmitError (Option DeliveryRecord × β) :=
  settle U (.delivery slot) (.delivery (deliveryDisposition outcome)) (ackStep delivery outcome)
    (deliveryNotFinalized delivery) onReject b

/-- Record a delivery's outcome at its source, with the same fallback as `finalizeCall`. -/
def acknowledgeDelivery (slot : Nat) (delivery : PreparedDelivery) (outcome : DeliveryOutcome)
    (b : β) : Except SubmitError (Option DeliveryRecord × β) :=
  let queued (reason : Error) (b : β) : Except SubmitError (Option DeliveryRecord × β) :=
    .ok (some (deliveryNotFinalized delivery reason.display), b)
  match outcome with
  | .unrepresentable => settleDelivery U slot delivery .unrepresentable queued b
  | .applied | .failed _ =>
    settleDelivery U slot delivery outcome
      (fun _ b => settleDelivery U slot delivery .unrepresentable queued b) b

/-- One prepared delivery as a unit. `none` when a unit was accepted for it. -/
def runDelivery (slot : Nat) (delivery : PreparedDelivery) (b : β) :
    Except SubmitError (Option DeliveryRecord × β) := do
  let (verdict, b) ← U.runUnit [deliveryStep delivery] b
  match verdict with
  | .unattempted => .ok (some (deliveryNotFinalized delivery replayBudgetReason), b)
  | .rejected reason => acknowledgeDelivery U slot delivery (.failed reason.display) b
  | .accepted unit =>
    let (extended, b) ← U.extendUnit unit [ackStep delivery .applied] b
    match extended with
    | .ok unit =>
      .ok (none, U.accept { unit with slot := .delivery slot, resolved := .delivery .applied } b)
    | .error _ => acknowledgeDelivery U slot delivery .unrepresentable b

/-- The outcome slots of a block. -/
structure Tables where
  members : Table MemberOutcome
  calls : Table CallRecord
  deliveries : Table DeliveryRecord

/-- All the block's units: the members, the calls, the deliveries. -/
def runUnits (admission : Admission) (ops : List BlockOp) (prepared : PreparedWork) (b : β) :
    Except SubmitError (Tables × β) := do
  let (members, b) ← runTurns (memberTurn U admission) 0 ops (fun _ => none) b
  let (calls, b) ← runTurns (callTurn U wire) 0 prepared.calls (fun _ => none) b
  let (deliveries, b) ← runTurns (runDelivery U) 0 prepared.deliveries (fun _ => none) b
  .ok (⟨members, calls, deliveries⟩, b)

end Control

end Ducktape
