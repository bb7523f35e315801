import Ducktape.Host.Observer

/-! # Dispatching: the gate, the drain and a unit's steps

One dispatch runs a module's code over the block's stages under an observer: the acl gate first for
external and program origins, then `execute` (or `acknowledge`) with its sibling reads observed.
`drainQueue` runs an op and every follow-up it causes, first in first out, under a dispatch budget;
`runSteps` runs the steps of one unit, each as its own drain. Every function returns what it adds to
the block (`Log`) beside the new stages and observer. -/

namespace Ducktape

open Lib

/-! ## Host constants -/

/-- Hard cap on the dispatches of one drain. -/
def maxDispatches : Nat := 1024

/-- Hard cap on rollback-and-replay cycles per block. -/
def maxBlockReplays : Nat := 8

def dispatchModuleId : ModuleId := "dispatch"
def aclModuleId : ModuleId := "acl"
def valsetModuleId : ModuleId := "valset"
def identityModuleId : ModuleId := "identity"
def modulesId : ModuleId := "modules"

/-- The host's fixed surroundings: its modules, their wire codecs, and sha256. -/
structure Host (C O : Type) where
  registry : Registry C O
  wire : Wire
  sha256 : Bytes → Bytes

/-- The clocks of one block: its own height and time, and those of the last committed block, which
the host's own reads are answered under. -/
structure BlockClock where
  height : Nat
  consensusTime : Nat
  committed : Nat × Nat
  deriving DecidableEq, Inhabited

/-! ## The acl gate -/

/-- Read one validator tier; an unreadable tier is an empty tier. -/
def valsetTier (wire : Wire) (tier : ValsetQuery) : Guest (List Bytes) := do
  let answer ← Guest.query valsetModuleId (wire.valsetQuery.encode tier)
  match answer with
  | .error _ => return []
  | .ok bytes =>
    match wire.valsetReply.decode bytes with
    | .ok (.validators keys) => return keys
    | .ok (.residents keys) => return keys
    | _ => return []

/-- Is `submitter` in the validator tier, or (with residents) in either tier? -/
def valsetTierHolds (wire : Wire) (submitter : Bytes) (withResidents : Bool) : Guest Bool := do
  let validators ← valsetTier wire .validators
  if validators.any (· = submitter) then return true
  if withResidents then
    let residents ← valsetTier wire .residents
    return residents.any (· = submitter)
  return false

/-- Does `submitter` belong to an identity account? An unreadable reply is "no". -/
def identityAccountHolds (wire : Wire) (submitter : Bytes) : Guest Bool := do
  let answer ← Guest.query identityModuleId (wire.identityQuery.encode (.ofKey submitter))
  match answer with
  | .error _ => return false
  | .ok bytes =>
    match wire.identityReply.decode bytes with
    | .ok (.account (some _)) => return true
    | _ => return false

/-- Does `origin` hold the `required` standing? -/
def standingHolds (wire : Wire) (required : Standing) (origin : Origin) : Guest Bool :=
  match required, origin with
  | .open, _ => return true
  | .validator, .external submitter => valsetTierHolds wire submitter false
  | .node, .external submitter => valsetTierHolds wire submitter true
  | .user, .external submitter => identityAccountHolds wire submitter
  | .user, .program _ => return true
  | .validator, .program _ | .node, .program _ => return false
  -- the host's own machinery never reaches the gate
  | _, .module _ | _, .system => return true

/-- The acl dispatch gate: does the submitting `origin` hold the standing `target` requires? -/
def requireSubmitStanding (wire : Wire) (origin : Origin) (target : ModuleId) :
    Guest (Except Error Unit) := do
  let answer ← Guest.query aclModuleId (wire.aclQuery.encode (.policyFor target))
  match answer with
  -- read as "no acl module composed: open network"
  | .error _ => return .ok ()
  | .ok reply =>
    match wire.aclReply.decode reply with
    | .ok (.policyFor none) => return .ok ()
    | .ok (.policyFor (some required)) =>
      let holds ← standingHolds wire required origin
      if holds then return .ok ()
      return .error (.module
        s!"acl: target {target} requires {required.asStr} standing — the submitting origin holds none")
    | _ => return .ok ()

/-! ## One dispatch -/

/-- One dispatch of a block's drain, as the block's outcome reports it. -/
structure DispatchRecord where
  module : ModuleId
  origin : Origin
  cause : Cause
  payload : Bytes
  emittedMsgs : Nat
  emittedEvents : Nat
  output : Option Bytes
  assigned : Bytes
  deriving DecidableEq

/-- What a run adds to its block: the modules it dispatched, its events and its trace. -/
structure Log where
  touched : Finset ModuleId
  events : List Event
  dispatches : List DispatchRecord
  deriving DecidableEq

namespace Log

/-- Nothing added. -/
def empty : Log := ⟨∅, [], []⟩

/-- What two runs in a row add. -/
def append (a b : Log) : Log := ⟨a.touched ∪ b.touched, a.events ++ b.events, a.dispatches ++ b.dispatches⟩

instance : Append Log := ⟨append⟩

@[simp] theorem touched_append (a b : Log) : (a ++ b).touched = a.touched ∪ b.touched := rfl

@[simp] theorem events_append (a b : Log) : (a ++ b).events = a.events ++ b.events := rfl

@[simp] theorem dispatches_append (a b : Log) : (a ++ b).dispatches = a.dispatches ++ b.dispatches := rfl

@[simp] theorem touched_empty : empty.touched = ∅ := rfl

@[simp] theorem events_empty : empty.events = [] := rfl

@[simp] theorem dispatches_empty : empty.dispatches = [] := rfl

theorem ext_iff' {a b : Log} :
    a = b ↔ a.touched = b.touched ∧ a.events = b.events ∧ a.dispatches = b.dispatches := by
  cases a; cases b; simp

@[simp] theorem empty_append (a : Log) : empty ++ a = a := by simp [ext_iff']

@[simp] theorem append_empty (a : Log) : a ++ empty = a := by simp [ext_iff']

theorem append_assoc (a b c : Log) : a ++ b ++ c = a ++ (b ++ c) := by
  simp [ext_iff']

end Log

/-- The state a drain moves: the modules' stages and the observer. -/
structure Machine (C O Ω : Type) where
  stages : Stages C O
  observer : Ω

/-- An op's effects, its declarations validated. -/
def Outputs.opEffects (out : Outputs) : Except Error Effects := do
  let output ← (Declared.ofCalls maxOutputBytes out.outputs).intoValue "op output"
  let assigned ← (Declared.ofCalls maxAssignedBytes out.stamps).intoValue "op assigned stamp"
  return ⟨out.emitted, out.events, output, assigned.getD []⟩

/-- An acknowledgment's effects: it may emit no follow-up, and declares no output. -/
def Outputs.ackEffects (source : ModuleId) (out : Outputs) : Except Error Effects := do
  if out.emitted ≠ [] then
    throw (.module
      s!"{source}: an acknowledgment emitted {out.emitted.length} follow-up intents; none are allowed")
  let assigned ←
    (Declared.ofCalls maxAssignedBytes out.stamps).intoValue "acknowledgment assigned stamp"
  return ⟨[], out.events, none, assigned.getD []⟩

section Dispatch

variable {C O Ω : Type} (H : Host C O) (W : Watch Ω) (clock : BlockClock)

/-- The reads module code makes under the block's observer; a query of itself is refused unseen. -/
def ctxObserve (me : ModuleId) (live : (q : Ask) → Answer q) : (q : Ask) → Ω → Answer q × Ω
  | .query target request, o =>
    if target = me then (.error .selfQuery, o) else W.observe live (.query target request) o
  | .root target, o => W.observe live (.root target) o

/-- Run `code` at the module `env.me`: remove, run over its stage with sibling reads observed,
reinsert. The module counts as touched only when it is registered. -/
def runAt (env : Env) (code : C → O → Guest (O × Except Error Outputs))
    (effects : Outputs → Except Error Effects) (s : Machine C O Ω) :
    Except Error Effects × Machine C O Ω × Finset ModuleId :=
  if env.me ∈ H.registry.ids then
    let stage := s.stages env.me
    let ran := (code stage.committed stage.overlay).run
      (ctxObserve W env.me (H.registry.dispatchAnswer s.stages env)) s.observer
    (ran.1.2 >>= effects,
      ⟨Function.update s.stages env.me ⟨stage.committed, ran.1.1⟩, ran.2⟩, {env.me})
  else (.error (.unknownModule env.me), s, ∅)

/-- The gate a dispatch passes before its target runs: only external and program origins are held
to the target's policy. -/
def runGate (origin : Origin) (target : ModuleId) (s : Machine C O Ω) : Except Error Unit × Ω :=
  match origin with
  | .external _ | .program _ =>
    (requireSubmitStanding H.wire origin target).run
      (W.observe (H.registry.hostAnswer s.stages clock.committed)) s.observer
  | .module _ | .system => (.ok (), s.observer)

/-- Run one op at its target: the acl gate, then `execute`. -/
def executeOne (origin : Origin) (cause : Cause) (msg : Msg) (s : Machine C O Ω) :
    Except Error Effects × Machine C O Ω × Finset ModuleId :=
  match runGate H W clock origin msg.target s with
  | (.error e, o) => (.error e, { s with observer := o }, ∅)
  | (.ok (), o) =>
    let env : Env := ⟨clock.height, clock.consensusTime, origin, msg.target, cause⟩
    runAt H W env (fun c overlay => (H.registry.code msg.target).execute c overlay env msg)
      Outputs.opEffects { s with observer := o }

/-- Run one acknowledgment at its source, under a System-origin environment. -/
def acknowledgeOne (source : ModuleId) (cause : Cause) (ack : Ack) (s : Machine C O Ω) :
    Except Error Effects × Machine C O Ω × Finset ModuleId :=
  let env : Env := ⟨clock.height, clock.consensusTime, .system, source, cause⟩
  runAt H W env (fun c overlay => (H.registry.code source).acknowledge c overlay env ack)
    (Outputs.ackEffects source) s

/-- Handle one dispatch as the observer plans it: run and record it, or stand its record in; a
replay that departed from the witness ends here. -/
def dispatchOne (module : ModuleId) (origin : Origin) (cause : Cause) (input : Input)
    (run : Machine C O Ω → Except Error Effects × Machine C O Ω × Finset ModuleId)
    (s : Machine C O Ω) : Except Error Effects × Machine C O Ω × Finset ModuleId :=
  match W.plan s.observer module origin cause input with
  | (.diverged reason, o) => (.error (.module reason), { s with observer := o }, ∅)
  | (.substitute recorded, o) =>
    match W.divergence o with
    | some divergence => (.error (.module divergence.reason), { s with observer := o }, ∅)
    | none => (recorded.result, { s with observer := o }, ∅)
  | (.execute, o) =>
    let ran := run { s with observer := o }
    let o := W.recordDispatch ⟨module, origin, cause, input, ran.1⟩ ran.2.1.observer
    let s := { ran.2.1 with observer := o }
    match W.divergence o with
    | some divergence => (.error (.module divergence.reason), s, ran.2.2)
    | none => (ran.1, s, ran.2.2)

/-! ## Drains -/

/-- A queued op: who triggered it, under which cause, and the message. -/
abbrev QueuedOp := Origin × Cause × Msg

/-- The follow-ups a dispatch puts at the back of the queue. -/
def followUps (module : ModuleId) (cause : Cause) (effects : Effects) : List QueuedOp :=
  effects.emitted.map fun msg => (.module module, cause, msg)

/-- What an applied op adds to its block. -/
def opLog (origin : Origin) (cause : Cause) (msg : Msg) (effects : Effects)
    (touched : Finset ModuleId) : Log :=
  ⟨touched, effects.events,
    [⟨msg.target, origin, cause, msg.payload, effects.emitted.length, effects.events.length,
      effects.output, effects.assigned⟩]⟩

/-- The queue runner with `budget` dispatches left. -/
def drainLoop : Nat → List QueuedOp → Machine C O Ω → Except Error Unit × Machine C O Ω × Log
  | _, [], s => (.ok (), s, .empty)
  | 0, _ :: _, s => (.error .budgetExceeded, s, .empty)
  | budget + 1, (origin, cause, msg) :: queue, s =>
    match dispatchOne W msg.target origin cause (.execute msg.payload)
        (executeOne H W clock origin cause msg) s with
    | (.error e, s, touched) => (.error e, s, ⟨touched, [], []⟩)
    | (.ok effects, s, touched) =>
      let rest := drainLoop budget (queue ++ followUps msg.target cause effects) s
      (rest.1, rest.2.1, opLog origin cause msg effects touched ++ rest.2.2)

/-- Drain a queue under a fresh dispatch budget. -/
def drainQueue (queue : List QueuedOp) (s : Machine C O Ω) :
    Except Error Unit × Machine C O Ω × Log :=
  drainLoop H W clock maxDispatches queue s

/-- Run a source's acknowledgment of one delivery, exactly like a dispatch. -/
def runAck (source : ModuleId) (cause : Cause) (ack : Ack) (s : Machine C O Ω) :
    Except Error Unit × Machine C O Ω × Log :=
  match dispatchOne W source .system cause (.acknowledge ack)
      (acknowledgeOne H W clock source cause ack) s with
  | (.error e, s, touched) => (.error e, s, ⟨touched, [], []⟩)
  | (.ok effects, s, touched) =>
    (.ok (), s, ⟨touched, effects.events,
      [⟨source, .system, cause, H.wire.ack.encode ack, 0, effects.events.length, none,
        effects.assigned⟩]⟩)

/-! ## Steps -/

/-- One step of a unit: a drained op, or a source's acknowledgment of a delivery. -/
inductive Step
  | op (origin : Origin) (cause : Cause) (msg : Msg)
  | ack (source : ModuleId) (cause : Cause) (ack : Ack)
  deriving DecidableEq

/-- Run one step as its own drain. -/
def runStep : Step → Machine C O Ω → Except Error Unit × Machine C O Ω × Log
  | .op origin cause msg, s => drainQueue H W clock [(origin, cause, msg)] s
  | .ack source cause ack, s => runAck H W clock source cause ack s

/-- Run a unit's steps in order, stopping at the first that fails. -/
def runSteps : List Step → Machine C O Ω → Except Error Unit × Machine C O Ω × Log
  | [], s => (.ok (), s, .empty)
  | step :: steps, s =>
    match runStep H W clock step s with
    | (.error e, s, log) => (.error e, s, log)
    | (.ok (), s, log) =>
      let rest := runSteps steps s
      (rest.1, rest.2.1, log ++ rest.2.2)

/-! ## What a drain runs -/

/-- Ops dispatched one after the other, each with the effects its module returned. -/
inductive InTurn : Machine C O Ω → List (QueuedOp × Effects) → Machine C O Ω → Prop
  | nil {s : Machine C O Ω} : InTurn s [] s
  | cons {origin : Origin} {cause : Cause} {msg : Msg} {effects : Effects} {touched : Finset ModuleId}
      {s m s' : Machine C O Ω} {rest : List (QueuedOp × Effects)}
      (first : dispatchOne W msg.target origin cause (.execute msg.payload)
        (executeOne H W clock origin cause msg) s = (.ok effects, m, touched))
      (others : InTurn m rest s') : InTurn s (((origin, cause, msg), effects) :: rest) s'

/-- **A drain dispatches what is queued and then every message a dispatch emitted, once and in order of
emission**, as from its emitter and under the emitter's cause, and logs just that. One that fails has
dispatched and logged a first part of it. -/
theorem drain_exact (budget : Nat) (queue : List QueuedOp) (s : Machine C O Ω) :
    let ran := drainLoop H W clock budget queue s
    ∃ trace left m, InTurn H W clock s trace m ∧ trace.length ≤ budget ∧
      trace.map Prod.fst ++ left =
        queue ++ trace.flatMap (fun run => followUps run.1.2.2.target run.1.2.1 run.2) ∧
      ran.2.2.dispatches =
        trace.flatMap (fun run => (opLog run.1.1 run.1.2.1 run.1.2.2 run.2 ∅).dispatches) ∧
      (ran.1 = .ok () ↔ left = []) ∧ (ran.1 = .ok () → ran.2.1 = m) := by
  induction budget generalizing queue s with
  | zero =>
    refine ⟨[], queue, s, .nil, le_rfl, by simp, ?_⟩
    cases queue <;> simp [drainLoop, Log.empty]
  | succ budget ih =>
    cases queue with
    | nil => exact ⟨[], [], s, .nil, Nat.zero_le _, rfl, rfl, by simp [drainLoop], fun _ => rfl⟩
    | cons op queue =>
      obtain ⟨origin, cause, msg⟩ := op
      simp only [drainLoop]
      cases dispatched : dispatchOne W msg.target origin cause (.execute msg.payload)
          (executeOne H W clock origin cause msg) s with
      | mk result after =>
        obtain ⟨after, touched⟩ := after
        cases result with
        | error e => exact ⟨[], (origin, cause, msg) :: queue, s, .nil, Nat.zero_le _, by simp, rfl, by simp, by simp⟩
        | ok effects =>
          -- the follow-ups join the queue at its back
          obtain ⟨trace, left, m, runs, within, order, logged, done, last⟩ :=
            ih (queue ++ followUps msg.target cause effects) after
          rw [List.append_assoc] at order
          exact ⟨((origin, cause, msg), effects) :: trace, left, m, .cons dispatched runs, Nat.succ_le_succ within,
            congrArg ((origin, cause, msg) :: ·) order, congrArg (_ :: ·) logged, done, last⟩

end Dispatch

end Ducktape
