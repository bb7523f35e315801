import Ducktape.Host.Module

/-! # The witness and its observer

A block's witness holds one trace per attempted unit: the sibling reads the unit made and the
dispatches it ran, in order. On the live path the observer records them; on a replay it serves the
journaled trace instead, stands recorded dispatches in for the modules that already hold the block,
and reports the first departure as a divergence.

`Watch` is the part of an observer a drain talks to. `Observing.watch` is the host's observer,
`Watch.direct` a bare recorder: a drain under `Watch.direct` is the block's code run on its own. -/

namespace Ducktape

open Lib

/-! ## Traces -/

/-- One observation a unit made of a sibling through the host. -/
inductive Read
  | query (module : ModuleId) (request : Bytes) (answer : Except Error Bytes)
  | root (module : ModuleId) (answer : Option StateRoot)
  deriving DecidableEq

/-- The observation a question and its answer make. -/
def Read.ofAnswer : (q : Ask) → Answer q → Read
  | .query target request, answer => .query target request answer
  | .root target, answer => .root target answer

/-- What one dispatch was given: an op to execute, or a delivery to acknowledge. -/
inductive Input
  | execute (payload : Bytes)
  | acknowledge (ack : Ack)
  deriving DecidableEq

/-- What an applied dispatch produced. -/
structure Effects where
  emitted : List Msg
  events : List Event
  output : Option Bytes
  assigned : Bytes
  deriving DecidableEq, Inhabited

/-- One dispatch as the block ran it, with the effects it fanned out or the rejection that ended
its unit. -/
structure Dispatched where
  module : ModuleId
  origin : Origin
  cause : Cause
  input : Input
  result : Except Error Effects
  deriving DecidableEq

/-- One entry of a unit's trace: a read, or a dispatch recorded after its reads. -/
inductive Trace
  | read (read : Read)
  | dispatch (dispatched : Dispatched)
  deriving DecidableEq

/-- Is this entry a read? -/
def Trace.isRead : Trace → Bool
  | .read _ => true
  | .dispatch _ => false

/-- The trace of one attempted unit. -/
structure Observed where
  trace : List Trace
  deriving DecidableEq, Inhabited

/-- What one block's units did and observed, one entry per attempted unit. -/
structure Witness where
  units : List Observed
  deriving DecidableEq, Inhabited

/-- The module a read was made of. -/
def readModule : Read → ModuleId
  | .query module _ _ => module
  | .root module _ => module

/-- The module a trace entry concerns. -/
def traceModule : Trace → ModuleId
  | .read read => readModule read
  | .dispatch dispatched => dispatched.module

/-- A read by shape, never by content. -/
def describeRead : Read → String
  | .query module request answer =>
    let size := request.length
    let ended := match answer with
      | .ok bytes => s!"{bytes.length}-byte answer"
      | .error e => s!"error {e.display}"
    s!"a {size}-byte query of {module} ({ended})"
  | .root module _ => s!"the root of {module}"

/-- A dispatch's target by shape. -/
def describeTarget (module : ModuleId) (origin : Origin) (input : Input) : String :=
  let what := match input with
    | .execute payload => s!"a {payload.length}-byte op"
    | .acknowledge ack => s!"the acknowledgment of item {ack.item}"
  s!"{what} at {module} as {origin.actorString}"

/-- A dispatch by shape: what ran where, as whom, and how it ended. -/
def describeDispatch (dispatched : Dispatched) : String :=
  let ended := match dispatched.result with
    | .ok effects =>
      s!"applied: {effects.emitted.length} intents, {effects.events.length} events"
    | .error e => s!"rejected: {e.display}"
  let target := describeTarget dispatched.module dispatched.origin dispatched.input
  s!"{target} ({ended})"

/-! ## The observer -/

/-- A replay that departed from the witness, against the module involved. -/
structure Divergence where
  module : ModuleId
  reason : String
  deriving DecidableEq

/-- How the observer answers: live and recording, or serving the witness with the dispatches of
`substitute` stood in for. -/
inductive Mode
  | live
  | replay (substitute : Finset ModuleId)

/-- Which entry the trace in flight belongs to. -/
inductive Open
  /-- No unit is open (a live re-run): reads are answered live, unrecorded. -/
  | unrecorded
  /-- The open unit's entry and, on a replay, the next position to serve. -/
  | unit (entry next : Nat)

/-- How one dispatch is handled: run, stood in for by its record, or refused. -/
inductive Plan
  | execute
  | substitute (recorded : Dispatched)
  | diverged (reason : String)

/-- The observer's state. -/
structure Observing where
  mode : Mode
  /-- Every attempted unit's entry, in attempt order. -/
  units : List Observed
  /-- How many units have been opened: the next unit's entry. -/
  attempted : Nat
  opened : Open
  /-- The first departure from the witness, if any. -/
  divergence : Option Divergence

/-- Where a block's observations come from. -/
inductive Observation
  | live
  | journaled (witness : Witness) (substitute : Finset ModuleId)

namespace Observing

/-- `Observer::new`. -/
def new : Observation → Observing
  | .live => ⟨.live, [], 0, .unrecorded, none⟩
  | .journaled witness substitute => ⟨.replay substitute, witness.units, 0, .unrecorded, none⟩

/-- Keep the first departure. -/
def diverge (o : Observing) (module : ModuleId) (reason : String) : Observing :=
  { o with divergence := o.divergence.or (some ⟨module, reason⟩) }

/-- The next recorded entry of the open unit, advancing past it. -/
def nextTrace (o : Observing) : Except String Trace × Observing :=
  match o.opened with
  | .unrecorded => (.error "outside any unit of the witness", o)
  | .unit entry next =>
    match o.units[entry]? with
    | none =>
      (.error s!"in unit {entry}, beyond the {o.units.length} the witness holds", o)
    | some unit =>
      match unit.trace[next]? with
      | none =>
        (.error s!"beyond the {unit.trace.length} entries the witness recorded for unit {entry}", o)
      | some item => (.ok item, { o with opened := .unit entry (next + 1) })

/-- The next entry, which must be a read. -/
def nextRead (o : Observing) : Except String Read × Observing :=
  match o.nextTrace with
  | (.error reason, o') => (.error reason, o')
  | (.ok (.read read), o') => (.ok read, o')
  | (.ok (.dispatch recorded), o') =>
    let shape := describeDispatch recorded
    (.error s!"where the witness recorded {shape} — one read more than the dispatch made live", o')

/-- On a replay, the unit being closed must have consumed its entry in full. -/
def closeOpen (o : Observing) : Observing :=
  match o.mode, o.opened with
  | .replay _, .unit entry next =>
    match o.units[entry]? with
    -- beyond the witness: reported as the unit count
    | none => o
    | some unit =>
      match unit.trace[next]? with
      | none => o
      | some unserved =>
        o.diverge (traceModule unserved)
          s!"unit {entry}: the replay reproduced {next} of the {unit.trace.length} entries the witness recorded"
  | _, _ => o

/-- Open the next attempted unit's entry. -/
def beginUnit (o : Observing) : Nat × Observing :=
  let o := o.closeOpen
  let entry := o.attempted
  let units := match o.mode with
    | .live => o.units ++ [⟨[]⟩]
    | .replay _ => o.units
  (entry, { o with attempted := o.attempted + 1, units := units, opened := .unit entry 0 })

/-- Re-open an accepted unit's entry for its re-run after an isolation rollback. -/
def resume (o : Observing) (entry : Nat) : Observing :=
  let o := o.closeOpen
  { o with opened := match o.mode with
      | .live => .unrecorded
      | .replay _ => .unit entry 0 }

/-- Append a trace entry to the open unit's record; a live re-run records nothing. -/
def push (o : Observing) (item : Trace) : Observing :=
  match o.opened with
  | .unrecorded => o
  | .unit entry _ => { o with units := o.units.modify entry fun unit => ⟨unit.trace ++ [item]⟩ }

/-- `observe_query` then `record_query`: answered live and recorded, or served from the witness. -/
def observeQuery (o : Observing) (module : ModuleId) (request : Bytes) (live : Except Error Bytes) :
    Except Error Bytes × Observing :=
  match o.mode with
  | .live => (live, o.push (.read (.query module request live)))
  | .replay _ =>
    let size := request.length
    let refuse (o : Observing) (reason : String) : Except Error Bytes × Observing :=
      (.error (.module s!"witness divergence: {reason}"), o.diverge module reason)
    match o.nextRead with
    | (.ok (.query recorded asked answer), o') =>
      if recorded = module ∧ asked = request then (answer, o')
      else
        let shape := describeRead (.query recorded asked answer)
        refuse o' s!"the witness recorded {shape}, the replay asked a {size}-byte query of {module}"
    | (.ok other, o') =>
      let shape := describeRead other
      refuse o' s!"the witness recorded {shape}, the replay asked a {size}-byte query of {module}"
    | (.error reason, o') =>
      refuse o' s!"the replay asked a {size}-byte query of {module} {reason}"

/-- A sibling's root, recorded or served. -/
def observeRoot (o : Observing) (module : ModuleId) (live : Option StateRoot) :
    Option StateRoot × Observing :=
  match o.mode with
  | .live => (live, o.push (.read (.root module live)))
  | .replay _ =>
    match o.nextRead with
    | (.ok (.root recorded root), o') =>
      if recorded = module then (root, o')
      else
        let shape := describeRead (.root recorded root)
        (none, o'.diverge module
          s!"the witness recorded {shape}, the replay asked the root of {module}")
    | (.ok other, o') =>
      let shape := describeRead other
      (none, o'.diverge module
        s!"the witness recorded {shape}, the replay asked the root of {module}")
    | (.error reason, o') =>
      (none, o'.diverge module s!"the replay asked the root of {module} {reason}")

/-- The observer's answer to any read, given the live one. -/
def observe (live : (q : Ask) → Answer q) : (q : Ask) → Observing → Answer q × Observing
  | .query target request, o => o.observeQuery target request (live (.query target request))
  | .root target, o => o.observeRoot target (live (.root target))

/-- The next recorded dispatch of the open unit: `next_trace` until it is one, the reads before it
passed over. -/
def nextDispatch (o : Observing) : Except String Dispatched × Observing :=
  match o.opened with
  | .unrecorded => (.error "outside any unit of the witness", o)
  | .unit entry next =>
    match o.units[entry]? with
    | none =>
      (.error s!"in unit {entry}, beyond the {o.units.length} the witness holds", o)
    | some unit =>
      let reached := next + ((unit.trace.drop next).takeWhile Trace.isRead).length
      match unit.trace[reached]? with
      | some (.dispatch recorded) =>
        (.ok recorded, { o with opened := .unit entry (reached + 1) })
      | _ =>
        (.error s!"beyond the {unit.trace.length} entries the witness recorded for unit {entry}",
          { o with opened := .unit entry reached })

/-- How the dispatch the drain reached is handled. -/
def plan (o : Observing) (module : ModuleId) (origin : Origin) (cause : Cause) (input : Input) :
    Plan × Observing :=
  match o.mode with
  | .live => (.execute, o)
  | .replay substitute =>
    if module ∉ substitute then (.execute, o)
    else
      let reached := describeTarget module origin input
      match o.nextDispatch with
      | (.error reason, o') =>
        let reason := s!"the replay reached {reached} {reason}"
        (.diverged reason, o'.diverge module reason)
      | (.ok recorded, o') =>
        if recorded.module = module ∧ recorded.origin = origin ∧ recorded.cause = cause ∧
            recorded.input = input then
          (.substitute recorded, o')
        else
          let shape := describeDispatch recorded
          let reason := s!"the witness recorded {shape}, the replay reached {reached}"
          (.diverged reason, o'.diverge module reason)

/-- A dispatch that ran: recorded live, checked against its record on a replay. -/
def recordDispatch (dispatched : Dispatched) (o : Observing) : Observing :=
  match o.mode with
  | .live => o.push (.dispatch dispatched)
  | .replay _ =>
    let ran := describeDispatch dispatched
    match o.nextTrace with
    | (.ok (.dispatch recorded), o') =>
      if recorded = dispatched then o'
      else
        let shape := describeDispatch recorded
        o'.diverge dispatched.module s!"the witness recorded {shape}, the replay ran {ran}"
    | (.ok (.read read), o') =>
      let shape := describeRead read
      o'.diverge dispatched.module
        s!"the witness recorded {shape} where the replay finished {ran} — one read fewer than the dispatch made live"
    | (.error reason, o') => o'.diverge dispatched.module s!"the replay finished {ran} {reason}"

/-- The block's witness, or how the replay diverged. -/
def finish (o : Observing) : Except Divergence Witness :=
  let o := o.closeOpen
  let short := match o.mode with
    | .live => false
    | .replay _ => o.attempted ≠ o.units.length
  let module := ((o.units[o.attempted]?.bind (·.trace.head?)).map traceModule).getD "dispatch"
  let o := if short then
      o.diverge module
        s!"the replay attempted {o.attempted} units, the witness holds {o.units.length}"
    else o
  match o.divergence with
  | some divergence => .error divergence
  | none => .ok ⟨o.units⟩

end Observing

/-! ## The drain's view of an observer -/

/-- What a drain needs of an observer with state `Ω`. -/
structure Watch (Ω : Type) where
  plan : Ω → ModuleId → Origin → Cause → Input → Plan × Ω
  observe : ((q : Ask) → Answer q) → (q : Ask) → Ω → Answer q × Ω
  recordDispatch : Dispatched → Ω → Ω
  divergence : Ω → Option Divergence

/-- The host's observer. -/
def Observing.watch : Watch Observing where
  plan := Observing.plan
  observe := Observing.observe
  recordDispatch := Observing.recordDispatch
  divergence := Observing.divergence

/-- A bare recorder: everything runs, and its state is the trace so far. -/
def Watch.direct : Watch (List Trace) where
  plan trace _ _ _ _ := (.execute, trace)
  observe live q trace := (live q, trace ++ [.read (.ofAnswer q (live q))])
  recordDispatch dispatched trace := trace ++ [.dispatch dispatched]
  divergence _ := none

end Ducktape
