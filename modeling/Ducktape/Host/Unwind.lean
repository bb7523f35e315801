import Ducktape.Host.Audit
import Ducktape.Host.Isolation

/-! # A block that fails: what it leaves

The block engine of `Ducktape.Host.Block` says what a failing block returns, not what it leaves of the
modules' stages on its way out. Here the unit runner is written once more with its state kept on every
exit, as the source has it: `abort_all` on the touched modules before each witness fault, and none where
an accepted unit rejects its own replay. An audited observer notes what every unit run did.

* `unwinding` is that runner; `unwinding_lockstep` shows that it does what `hostUnits` does, and that it
  ends either in step with it or failed;
* `unwindStage` is the whole block up to its witness;
* `replay_sound` is the soundness of a witnessed replay: a replay that returns consumed the witness in
  full, and one that departs from it fails with every module as it was. -/

namespace Ducktape

open Lib Observing

/-- The running state of a block, observed by an auditor. -/
structure Unwinding (C O : Type) where
  stages : Stages C O
  observer : Audited
  touched : Finset ModuleId
  accepted : List AcceptedUnit
  replays : Nat

namespace Unwinding

variable {C O α β : Type}

/-- The block's own state, without the audit. -/
def run (u : Unwinding C O) : BlockRun C O :=
  ⟨u.stages, u.observer.observer, u.touched, u.accepted, u.replays⟩

/-- The block after a run that ended in `machine` and added `log`. -/
def ran (u : Unwinding C O) (machine : Machine C O Audited) (log : Log) : Unwinding C O :=
  { u with stages := machine.stages, observer := machine.observer, touched := u.touched ∪ log.touched }

/-- `abort_all`: every touched module starts over, and none counts as touched. -/
def abort (H : Host C O) (u : Unwinding C O) : Unwinding C O :=
  { u with stages := abortAll H u.touched u.stages, touched := ∅ }

/-- Go on unless an error ends the block. -/
def andThen (x : Except SubmitError α × Unwinding C O)
    (f : α → Unwinding C O → Except SubmitError β × Unwinding C O) :
    Except SubmitError β × Unwinding C O :=
  match x with
  | (.ok a, u) => f a u
  | (.error e, u) => (.error e, u)

theorem andThen_assoc {γ : Type} (x : Except SubmitError α × Unwinding C O)
    (f : α → Unwinding C O → Except SubmitError β × Unwinding C O)
    (g : β → Unwinding C O → Except SubmitError γ × Unwinding C O) :
    andThen (andThen x f) g = andThen x fun a u => andThen (f a u) g := by
  obtain ⟨_ | a, u⟩ := x <;> rfl

end Unwinding

open Unwinding (andThen)

section Runner

variable {C O : Type} (H : Host C O) (clock : BlockClock)

/-- `check_witness`: a departure aborts the stage, then fails. -/
def unwindWitness (u : Unwinding C O) : Except SubmitError Unit × Unwinding C O :=
  match u.observer.observer.divergence with
  | some divergence => (.error (witnessFault divergence), u.abort H)
  | none => (.ok (), u)

/-- `replay_accepted`. -/
def unwindAccepted :
    List AcceptedUnit → Unwinding C O → Except SubmitError (List AcceptedUnit) × Unwinding C O
  | [], u => (.ok [], u)
  | unit :: units, u =>
    let (verdict, machine, log) := runSteps H Audited.watch clock unit.steps
      ⟨u.stages, u.observer.resume unit.entry⟩
    andThen (unwindWitness H (u.ran machine log)) fun _ u =>
      match verdict with
      -- the stage is left as it is
      | .error e => (.error (nondeterminismFault unit e), u)
      | .ok () => andThen (unwindAccepted units u) fun units u =>
        (.ok ({ unit with events := log.events, dispatches := log.dispatches } :: units), u)

/-- `isolate`. -/
def unwindIsolate (u : Unwinding C O) : Except SubmitError Unit × Unwinding C O :=
  andThen (unwindAccepted H clock u.accepted (u.abort H)) fun accepted u =>
    (.ok (), { u with accepted := accepted, replays := u.replays + 1 })

/-- `run_unit`. -/
def unwindUnit (steps : List Step) (u : Unwinding C O) : Except SubmitError UnitVerdict × Unwinding C O :=
  if u.run.budgetExhausted then (.ok .unattempted, u)
  else
    let (entry, observer) := u.observer.beginUnit
    let (verdict, machine, log) := runSteps H Audited.watch clock steps ⟨u.stages, observer⟩
    andThen (unwindWitness H (u.ran machine log)) fun _ u =>
      match verdict with
      | .ok () => (.ok (.accepted ⟨.member 0, .member, steps, log.events, log.dispatches, entry⟩), u)
      | .error reason =>
        if log.touched ≠ ∅ then andThen (unwindIsolate H clock u) fun _ u => (.ok (.rejected reason), u)
        else (.ok (.rejected reason), u)

/-- `extend_unit`. -/
def unwindExtension (unit : AcceptedUnit) (steps : List Step) (u : Unwinding C O) :
    Except SubmitError (Except String AcceptedUnit) × Unwinding C O :=
  let (verdict, machine, log) := runSteps H Audited.watch clock steps ⟨u.stages, u.observer⟩
  andThen (unwindWitness H (u.ran machine log)) fun _ u =>
    match verdict with
    | .ok () =>
      (.ok (.ok { unit with steps := unit.steps ++ steps, events := unit.events ++ log.events,
                            dispatches := unit.dispatches ++ log.dispatches }), u)
    | .error reason => andThen (unwindIsolate H clock u) fun _ u => (.ok (.error reason.display), u)

/-- The authority of a call, at its turn. -/
def unwindAuthority (call : PreparedCall) (u : Unwinding C O) :
    Except SubmitError (Option Verdict) × Unwinding C O :=
  if u.run.budgetExhausted then (.ok none, u)
  else
    let (_, observer) := u.observer.beginUnit
    let (authority, observer) := (callAuthority H.wire call).run
      (Audited.watch.observe (H.registry.hostAnswer u.stages clock.committed)) observer
    andThen (unwindWitness H { u with observer := observer }) fun _ u =>
      match authority with
      | .ok verdict => (.ok (some verdict), u)
      | .error e => (.error (authorityFault e), u.abort H)

/-- One operation of a runner that keeps its state: once the block failed, nothing is attempted. -/
def unlessFailed {α : Type} (skip : α)
    (op : Unwinding C O → Except SubmitError α × Unwinding C O) (s : Unwinding C O × Option SubmitError) :
    Except SubmitError (α × (Unwinding C O × Option SubmitError)) :=
  match s with
  | (u, some e) => .ok (skip, (u, some e))
  | (u, none) => match op u with
    | (.ok a, u) => .ok (a, (u, none))
    | (.error e, u) => .ok (skip, (u, some e))

/-- The unit runner of a block that keeps its state when it fails. -/
def unwinding : Units (Unwinding C O × Option SubmitError) where
  runUnit steps := unlessFailed .unattempted (unwindUnit H clock steps)
  extendUnit unit steps := unlessFailed (.error "") (unwindExtension H clock unit steps)
  authority call := unlessFailed none (unwindAuthority H clock call)
  accept unit s := ({ s.1 with accepted := s.1.accepted ++ [unit] }, s.2)

end Runner

/-! ## A block always comes to an end -/

section Returns

variable {β ρ : Type}

/-- The run returns. -/
def Returns {ε α : Type} (x : Except ε α) : Prop := ∃ a, x = .ok a

theorem Returns.ok {ε α : Type} (a : α) : Returns (.ok a : Except ε α) := ⟨a, rfl⟩

theorem Returns.bind {ε α α' : Type} {x : Except ε α} {f : α → Except ε α'} (first : Returns x)
    (rest : ∀ a, Returns (f a)) : Returns (x >>= f) := by
  obtain ⟨a, rfl⟩ := first
  exact rest a

/-- Every operation of the runner returns. -/
structure Units.Returns (U : Units β) : Prop where
  runUnit : ∀ steps b, Ducktape.Returns (U.runUnit steps b)
  extendUnit : ∀ unit steps b, Ducktape.Returns (U.extendUnit unit steps b)
  authority : ∀ call b, Ducktape.Returns (U.authority call b)

/-- A batch returns when every operation of its runner does: no member fails it. -/
theorem runUnits_returns {U : Units β} (returns : U.Returns) (wire : Wire) (ops : List BlockOp)
    (prepared : PreparedWork) (b : β) : Returns (runUnits U wire .batch ops prepared b) := by
  let T {α : Type} (_ : Prop) (_ _ : β) (_ : α → β → β → Prop) (_ run : Except SubmitError (α × β)) := Returns run
  have composes : Composable T := ⟨fun _ => .ok _, fun first rest => first.bind fun ⟨v, b⟩ => rest v b b⟩
  have related : U.Related U T (fun _ _ => True) fun _ _ _ => True :=
    ⟨fun steps _ => returns.runUnit steps, fun unit steps _ => returns.extendUnit unit steps,
      fun call _ => returns.authority call, fun _ _ _ _ _ _ => .ok _⟩
  exact runUnits_related composes related wire .batch nofun ops prepared b b

end Returns

/-! ## In step with the block engine -/

section Settles

variable {C O : Type} {H : Host C O} (clock : BlockClock) {W : Witness} {D : Finset ModuleId}
  {pre : Stages C O} {α β : Type} {f : Unit → Unwinding C O → Except SubmitError β × Unwinding C O}
  {u : Unwinding C O}

/-- A replay of `W` under way from the stages `pre`: nothing departed, and only what was touched moved. -/
structure Healthy (H : Host C O) (W : Witness) (D : Finset ModuleId) (pre : Stages C O)
    (u : Unwinding C O) : Prop where
  sound : u.observer.Sound W D
  undiverged : u.observer.observer.divergence = none
  frames : Frames H u.touched pre u.stages

/-- A replay of `W` that failed with `e`: if it departed, that is the fault, and every stage is as it
was. -/
structure Unwound (W : Witness) (D : Finset ModuleId) (pre : Stages C O) (e : SubmitError)
    (u : Unwinding C O) : Prop where
  sound : u.observer.Sound W D
  restored : ∀ divergence, u.observer.observer.divergence = some divergence →
    e = witnessFault divergence ∧ u.stages = pre

theorem Healthy.unwound (healthy : Healthy H W D pre u) (e : SubmitError) (σ : Stages C O)
    (touched : Finset ModuleId) : Unwound W D pre e { u with stages := σ, touched } :=
  ⟨healthy.sound, fun _ departed => by cases healthy.undiverged.symm.trans departed⟩

/-- The run `x` that keeps its state does what the engine's `y` does, and ends healthy or unwound. -/
def Settles (H : Host C O) (W : Witness) (D : Finset ModuleId) (pre : Stages C O)
    (x : Except SubmitError α × Unwinding C O) (y : Except SubmitError (α × BlockRun C O)) : Prop :=
  match x with
  | (.ok a, u) => y = .ok (a, u.run) ∧ Healthy H W D pre u
  | (.error e, u) => y = .error e ∧ Unwound W D pre e u

theorem Settles.andThen {x : Except SubmitError α × Unwinding C O}
    {y : Except SubmitError (α × BlockRun C O)}
    {f : α → Unwinding C O → Except SubmitError β × Unwinding C O}
    {g : α × BlockRun C O → Except SubmitError (β × BlockRun C O)} (first : Settles H W D pre x y)
    (rest : ∀ a u, Healthy H W D pre u → Settles H W D pre (f a u) (g (a, u.run))) :
    Settles H W D pre (andThen x f) (y >>= g) := by
  obtain ⟨_ | a, u⟩ := x
  · obtain ⟨rfl, unwound⟩ := first
    exact ⟨rfl, unwound⟩
  · obtain ⟨rfl, healthy⟩ := first
    exact rest a u healthy

/-- Aborting what was touched brings the start back. -/
theorem Frames.abort {touched : Finset ModuleId} {σ : Stages C O} (frames : Frames H touched pre σ)
    (atStart : AtBoundary H pre) : abortAll H touched σ = pre := by
  have restored : abortAll H (touched \ ∅) (keep ∅ pre σ) = keep ∅ pre pre :=
    abortAll_restores atStart frames.frame frames.committed frames.registered
  simpa using restored

/-- The witness is checked after every run: the block goes on healthy, or ends unwound. -/
theorem unwindWitness_settles (atStart : AtBoundary H pre) (sound : u.observer.Sound W D)
    (frames : Frames H u.touched pre u.stages) {g : Unit → Except SubmitError (β × BlockRun C O)}
    (rest : Healthy H W D pre u → Settles H W D pre (f () u) (g ())) :
    Settles H W D pre (andThen (unwindWitness H u) f) (checkWitness u.run >>= g) := by
  unfold unwindWitness
  cases departed : u.observer.observer.divergence with
  | none =>
    have passed : checkWitness u.run = .ok () := by simp [checkWitness, Unwinding.run, departed]
    rw [passed]
    exact rest ⟨sound, departed, frames⟩
  | some divergence =>
    have stopped : checkWitness u.run = .error (witnessFault divergence) := by
      simp [checkWitness, Unwinding.run, departed]
    rw [stopped]
    refine ⟨rfl, sound, fun _ same => ?_⟩
    cases departed.symm.trans same
    exact ⟨rfl, frames.abort atStart⟩

/-- A unit run under the auditor is the engine's run. -/
theorem audited_runSteps {a : Audited} (sound : a.Sound W D) (steps : List Step) (σ : Stages C O) :
    ∃ verdict σ' log a', runSteps H Audited.watch clock steps ⟨σ, a⟩ = (verdict, ⟨σ', a'⟩, log) ∧
      runSteps H watch clock steps ⟨σ, a.observer⟩ = (verdict, ⟨σ', a'.observer⟩, log) ∧
      a'.Sound W D ∧ Frames H log.touched σ σ' := by
  obtain ⟨verdict, σ', log, a', o', audited, plain, ⟨rfl, sound⟩, frames⟩ :=
    (runSteps_twins H clock (Audited.audited_simulates W D) steps ⟨rfl, sound⟩).parts
  exact ⟨verdict, σ', log, a', audited, plain, sound, frames⟩

/-- Reads of the host's own, under the auditor. -/
theorem audited_reads {a : Audited} (p : Guest α) (live : (q : Ask) → Answer q) (sound : a.Sound W D) :
    ∃ result a', p.run (Audited.watch.observe live) a = (result, a') ∧
      p.run (watch.observe live) a.observer = (result, a'.observer) ∧ a'.Sound W D := by
  obtain ⟨same, related, sound⟩ := Prog.run_related
    (R := fun (a : Audited) o => a.observer = o ∧ a.Sound W D)
    (fun q s t related => (Audited.audited_simulates W D).observe related live q) p ⟨rfl, sound⟩
  exact ⟨_, _, rfl, Prod.ext same.symm related.symm, sound⟩

section

variable (atStart : AtBoundary H pre)
include atStart

theorem unwindAccepted_settles (accepted : List AcceptedUnit) (healthy : Healthy H W D pre u) :
    Settles H W D pre (unwindAccepted H clock accepted u) (replayAccepted H clock accepted u.run) := by
  induction accepted generalizing u with
  | nil => exact ⟨rfl, healthy⟩
  | cons unit units ih =>
    obtain ⟨verdict, σ', log, a', audited, plain, sound, frames⟩ :=
      audited_runSteps clock (healthy.sound.resume unit.entry) unit.steps u.stages
    have plain : runSteps H watch clock unit.steps
        ⟨u.run.stages, u.run.observer.resume unit.entry⟩ = (verdict, ⟨σ', a'.observer⟩, log) := plain
    simp only [unwindAccepted, replayAccepted, audited, plain]
    refine unwindWitness_settles atStart sound
      (healthy.frames.trans frames) fun healthy => ?_
    cases verdict with
    | error e => exact ⟨rfl, healthy.unwound _ _ _⟩
    | ok _ => exact (ih healthy).andThen fun units u healthy => ⟨rfl, healthy⟩

/-- Isolation starts over from the accepted units, and the block goes on from there. -/
theorem unwindIsolate_settles (healthy : Healthy H W D pre u)
    {g : BlockRun C O → Except SubmitError (β × BlockRun C O)}
    (rest : ∀ u, Healthy H W D pre u → Settles H W D pre (f () u) (g u.run)) :
    Settles H W D pre (andThen (unwindIsolate H clock u) f) (isolate H clock u.run >>= g) := by
  have rolled : Healthy H W D pre (u.abort H) := by
    refine ⟨healthy.sound, healthy.undiverged, ?_⟩
    rw [Unwinding.abort, healthy.frames.abort atStart]
    exact .refl pre
  have replayed := unwindAccepted_settles clock atStart u.accepted rolled
  unfold unwindIsolate isolate
  rw [Unwinding.andThen_assoc, bind_assoc]
  exact replayed.andThen fun accepted u healthy =>
    rest { u with accepted := accepted, replays := u.replays + 1 }
      ⟨healthy.sound, healthy.undiverged, healthy.frames⟩

theorem unwindUnit_settles (steps : List Step) (healthy : Healthy H W D pre u) :
    Settles H W D pre (unwindUnit H clock steps u) (runUnit H clock steps u.run) := by
  unfold unwindUnit runUnit
  by_cases exhausted : u.run.budgetExhausted
  · simp only [exhausted]
    exact ⟨rfl, healthy⟩
  obtain ⟨verdict, σ', log, a', audited, plain, sound, frames⟩ :=
    audited_runSteps clock healthy.sound.beginUnit steps u.stages
  have plain : runSteps H watch clock steps ⟨u.run.stages, u.run.observer.beginUnit.2⟩
      = (verdict, ⟨σ', a'.observer⟩, log) := plain
  simp only [exhausted, audited, plain]
  refine unwindWitness_settles atStart sound
    (healthy.frames.trans frames) fun healthy => ?_
  cases verdict with
  | ok _ => exact ⟨rfl, healthy⟩
  | error reason =>
    by_cases reached : log.touched ≠ ∅
    · simp only [if_pos reached]
      exact unwindIsolate_settles clock atStart healthy fun u healthy => ⟨rfl, healthy⟩
    · simp only [if_neg reached]
      exact ⟨rfl, healthy⟩

theorem unwindExtension_settles (unit : AcceptedUnit) (steps : List Step)
    (healthy : Healthy H W D pre u) :
    Settles H W D pre (unwindExtension H clock unit steps u) (extendUnit H clock unit steps u.run) := by
  obtain ⟨verdict, σ', log, a', audited, plain, sound, frames⟩ :=
    audited_runSteps clock healthy.sound steps u.stages
  have plain : runSteps H watch clock steps ⟨u.run.stages, u.run.observer⟩
      = (verdict, ⟨σ', a'.observer⟩, log) := plain
  simp only [unwindExtension, extendUnit, audited, plain]
  refine unwindWitness_settles atStart sound
    (healthy.frames.trans frames) fun healthy => ?_
  cases verdict with
  | ok _ => exact ⟨rfl, healthy⟩
  | error reason => exact unwindIsolate_settles clock atStart healthy fun u healthy => ⟨rfl, healthy⟩

theorem unwindAuthority_settles (call : PreparedCall) (healthy : Healthy H W D pre u) :
    Settles H W D pre (unwindAuthority H clock call u) (decideAuthority H clock call u.run) := by
  unfold unwindAuthority decideAuthority
  by_cases exhausted : u.run.budgetExhausted
  · simp only [exhausted]
    exact ⟨rfl, healthy⟩
  obtain ⟨authority, a', audited, plain, sound⟩ := audited_reads (callAuthority H.wire call)
    (H.registry.hostAnswer u.stages clock.committed) healthy.sound.beginUnit
  have plain : (callAuthority H.wire call).run
      (watch.observe (H.registry.hostAnswer u.run.stages clock.committed))
      u.run.observer.beginUnit.2 = (authority, a'.observer) := plain
  simp only [exhausted, audited, plain]
  refine unwindWitness_settles (u := { u with observer := a' }) atStart sound healthy.frames
    fun healthy => ?_
  cases authority with
  | ok verdict => exact ⟨rfl, healthy⟩
  | error e => exact ⟨rfl, healthy.unwound _ _ _⟩

end

/-! The two runners stay in step until the block fails. -/

/-- The runners are in step. -/
def InStep (H : Host C O) (W : Witness) (D : Finset ModuleId) (pre : Stages C O)
    (s : Unwinding C O × Option SubmitError) (b : BlockRun C O) : Prop :=
  s.2 = none ∧ s.1.run = b ∧ Healthy H W D pre s.1

/-- The block failed. -/
def Broken (W : Witness) (D : Finset ModuleId) (pre : Stages C O)
    (s : Unwinding C O × Option SubmitError) : Prop :=
  ∃ e, s.2 = some e ∧ Unwound W D pre e s.1

variable (skip : α) (op : Unwinding C O → Except SubmitError α × Unwinding C O)
  (s : Unwinding C O × Option SubmitError)

theorem unlessFailed_ahead :
    Moves (Ahead (fun _ => True) (Broken W D pre)) s (unlessFailed skip op s) := by
  obtain ⟨u, _ | e⟩ := s
  · intro v s' _
    refine ⟨fun _ => trivial, ?_⟩
    rintro ⟨e, failed, -⟩
    cases failed
  · exact .ok ⟨fun _ => trivial, id⟩

theorem unlessFailed_follows {skip : α} {op : Unwinding C O → Except SubmitError α × Unwinding C O}
    {engine : BlockRun C O → Except SubmitError (α × BlockRun C O)}
    (settles : ∀ u, Healthy H W D pre u → Settles H W D pre (op u) (engine u.run))
    {s : Unwinding C O × Option SubmitError} {b : BlockRun C O} (inStep : InStep H W D pre s b) :
    Follows (fun _ => True) (Broken W D pre) (fun _ => False) (fun _ => InStep H W D pre)
      (unlessFailed skip op s) (engine b) := by
  obtain ⟨u, failed⟩ := s
  obtain ⟨rfl, rfl, healthy⟩ := inStep
  have settled := settles u healthy
  simp only [unlessFailed]
  generalize op u = done at settled
  obtain ⟨_ | a, u'⟩ := done
  · obtain ⟨errs, unwound⟩ := settled
    refine fun _ => .inr ⟨⟨_, rfl, unwound⟩, fun v b ended => ?_⟩
    cases errs.symm.trans ended
  · obtain ⟨ends, healthy⟩ := settled
    exact fun _ => .inl ⟨u'.run, ends, rfl, rfl, healthy⟩

/-- **The runner that keeps its state does what the block engine does.** -/
theorem unwinding_lockstep (atStart : AtBoundary H pre) :
    (unwinding H clock).Lockstep (hostUnits H clock) (InStep H W D pre) (fun _ => InStep H W D pre)
      (fun _ => True) (Broken W D pre) (fun _ => False) where
  ahead := {
    runUnit := fun steps s => unlessFailed_ahead _ _ s
    extendUnit := fun unit steps s => unlessFailed_ahead _ _ s
    authority := fun call s => unlessFailed_ahead _ _ s
    accept := fun unit s => ⟨fun _ => trivial, fun ⟨e, failed, unwound⟩ =>
      ⟨e, failed, unwound.sound, unwound.restored⟩⟩ }
  off := {
    runUnit := fun _ _ _ _ _ off => off
    extendUnit := fun _ _ _ _ _ _ off => off
    authority := fun _ _ _ _ _ off => off
    accept := fun _ _ off => off }
  runUnit steps s b inStep := by
    refine (unlessFailed_follows (fun u healthy => unwindUnit_settles clock atStart steps healthy)
      inStep).mono fun verdict s b inStep => ?_
    cases verdict <;> exact inStep
  extendUnit unit steps s b inStep := by
    refine (unlessFailed_follows
      (fun u healthy => unwindExtension_settles clock atStart unit steps healthy) inStep).mono
      fun extended s b inStep => ?_
    cases extended <;> exact inStep
  authority call s b inStep :=
    unlessFailed_follows (fun u healthy => unwindAuthority_settles clock atStart call healthy) inStep
  accept unit slot resolved s b inStep _ := by
    obtain ⟨failed, rfl, healthy⟩ := inStep
    exact ⟨failed, rfl, healthy.sound, healthy.undiverged, healthy.frames⟩

theorem unlessFailed_returns : Returns (unlessFailed skip op s) := by
  obtain ⟨u, _ | e⟩ := s
  · simp only [unlessFailed]
    generalize op u = done
    obtain ⟨_ | a, u⟩ := done <;> exact .ok _
  · exact .ok _

theorem unwinding_returns : (unwinding H clock).Returns :=
  ⟨fun _ s => unlessFailed_returns _ _ s, fun _ _ s => unlessFailed_returns _ _ s,
    fun _ s => unlessFailed_returns _ _ s⟩

end Settles

/-! ## The whole block -/

/-- How a block's staging ended: what it returned, the stages it left, the audit, and whether it came to
checking that the witness was consumed in full. -/
structure Ending (C O : Type) where
  result : Except SubmitError Witness
  stages : Stages C O
  audit : Audited
  finished : Bool

section Stage

variable {C O : Type} (H : Host C O) (clock : BlockClock)

/-- The injection, the block's last unit. -/
def unwindInjection (prepared : PreparedWork) (u : Unwinding C O) :
    Except SubmitError Unit × Unwinding C O :=
  let queue : List QueuedOp := (prepared.advance.map fun msg => (.system, .direct, msg)).toList
  let (drained, machine, log) := drainQueue H Audited.watch clock queue
    ⟨u.stages, u.observer.beginUnit.2⟩
  andThen (unwindWitness H (u.ran machine log)) fun _ u =>
    match drained with
    | .error reason => (.error (.rejected reason), u.abort H)
    | .ok () => (.ok (), u)

/-- Everything a replayed block does before its witness is recorded, with what it leaves if it fails. -/
def unwindStage (ops : List BlockOp) (prepared : PreparedWork) (observation : Observation)
    (committed : ModuleId → C) : Ending C O :=
  let start : Unwinding C O := ⟨H.registry.boundary committed, .new observation, ∅, [], 0⟩
  match runUnits (unwinding H clock) H.wire .batch ops prepared (start, none) with
  -- never taken: a batch always comes to an end
  | .error e => ⟨.error e, start.stages, start.observer, false⟩
  | .ok (_, (u, some e)) => ⟨.error e, u.stages, u.observer, false⟩
  | .ok (_, (u, none)) => match unwindInjection H clock prepared u with
    | (.error e, u) => ⟨.error e, u.stages, u.observer, false⟩
    | (.ok (), u) => match u.observer.observer.finish with
      | .error divergence =>
        ⟨.error (witnessFault divergence), (u.abort H).stages, u.observer, true⟩
      | .ok witness => ⟨.ok witness, u.stages, u.observer, true⟩

end Stage

/-- What the run did so far is in the witness, at its place. -/
def UnitRun.Partly (W : Witness) (run : UnitRun) : Prop :=
  ∃ next, Matches run.made ((W.entry run.entry).take next)

/-- The block did what the witness records: every closed unit run exactly what its entry holds, the last
one the start of it; and once the block finished, all of them exactly, with one first run for each
entry, in order. -/
structure Ending.Conforms {C O : Type} (W : Witness) (ending : Ending C O) : Prop where
  closed : ∀ run ∈ ending.audit.closed, run.Exactly W
  current : ∀ run, ending.audit.current = some run → run.Partly W
  finished : ending.finished = true → (∀ run ∈ ending.audit.runs, run.Exactly W) ∧
    (ending.audit.runs.filter (!·.rerun)).map (·.entry) = List.range W.units.length

theorem Ending.Conforms.of_exact {C O : Type} {W : Witness} {ending : Ending C O}
    (exact : ∀ run ∈ ending.audit.runs, run.Exactly W)
    (begun : (ending.audit.runs.filter (!·.rerun)).map (·.entry) = List.range W.units.length) :
    ending.Conforms W where
  closed run mem := exact run (List.mem_append_left _ mem)
  current run current := by
    refine ⟨(W.entry run.entry).length, ?_⟩
    rw [List.take_length]
    refine exact run (List.mem_append_right _ ?_)
    rw [current]
    exact List.mem_singleton_self run
  finished _ := ⟨exact, begun⟩

section Sound

variable {C O J : Type} {H : Host C O} (clock : BlockClock) {W : Witness} {D : Finset ModuleId}
  {pre : Stages C O}

/-- A block that failed and did not depart conforms. -/
theorem Unwound.conforms {e : SubmitError} {u : Unwinding C O} (unwound : Unwound W D pre e u) :
    Ending.Conforms W ⟨.error e, u.stages, u.observer, false⟩ ∨ u.stages = pre := by
  cases departed : u.observer.observer.divergence with
  | some divergence => exact .inr (unwound.restored divergence departed).2
  | none =>
    refine .inl ⟨unwound.sound.closed departed, fun run current => ?_, fun finished => by cases finished⟩
    have along := unwound.sound.along departed
    rw [Audited.Along, current] at along
    obtain ⟨next, -, matched⟩ := along
    exact ⟨next, matched⟩

theorem unwindInjection_settles (atStart : AtBoundary H pre) (prepared : PreparedWork)
    {u : Unwinding C O} (healthy : Healthy H W D pre u) :
    Settles H W D pre (unwindInjection H clock prepared u)
      (drainInjection H clock prepared u.run >>= fun done => .ok ((), done.1)) := by
  obtain ⟨drained, σ', log, a', o', audited, plain, ⟨rfl, sound⟩, frames⟩ :=
    (drainLoop_twins H clock (Audited.audited_simulates W D) maxDispatches
      (prepared.advance.map fun msg => (.system, .direct, msg)).toList
      ⟨rfl, healthy.sound.beginUnit⟩ (σ := u.stages)).parts
  have audited : drainQueue H Audited.watch clock _ _ = _ := audited
  have plain : drainQueue H watch clock _ ⟨u.run.stages, u.run.observer.beginUnit.2⟩ = _ := plain
  simp only [unwindInjection, drainInjection, audited, plain, bind_assoc]
  refine unwindWitness_settles atStart sound
    (healthy.frames.trans frames) fun healthy => ?_
  cases drained with
  | ok _ => exact ⟨rfl, healthy⟩
  | error reason => exact ⟨rfl, healthy.unwound _ _ _⟩

/-- **How a replayed block's staging ends**: with the whole witness consumed as it was recorded, or with
an error, where a departure leaves every stage as it was. -/
theorem unwindStage_ends (ops : List BlockOp) (prepared : PreparedWork) (committed : ModuleId → C)
    {ending : Ending C O} (ends : ending = unwindStage H clock ops prepared (.journaled W D) committed) :
    (∃ tables b log, stageBlock H clock ops prepared (.journaled W D) .batch committed
          = .ok (tables, b, log, W) ∧ ending.finished = true ∧ ending.Conforms W) ∨
    ((∃ fault, stageBlock H clock ops prepared (.journaled W D) .batch committed = .error fault) ∧
      (ending.Conforms W ∨ ending.stages = H.registry.boundary committed)) := by
  have atStart : AtBoundary H (H.registry.boundary committed) := fun _ => rfl
  let start : Unwinding C O := ⟨H.registry.boundary committed, .new (.journaled W D), ∅, [], 0⟩
  have healthy : Healthy H W D (H.registry.boundary committed) start :=
    ⟨.new W D, rfl, .refl _⟩
  obtain ⟨⟨tables, u, failed⟩, ended⟩ :=
    runUnits_returns (unwinding_returns clock) H.wire ops prepared (start, none)
  have tracks := (runUnits_tracks (unwinding_lockstep clock atStart) H.wire .batch ops
    prepared (start, none) start.run).follows ⟨rfl, rfl, healthy⟩
  have staged : stageBlock H clock ops prepared (.journaled W D) .batch committed
      = runUnits (hostUnits H clock) H.wire .batch ops prepared start.run >>= fun ran =>
        drainInjection H clock prepared ran.2 >>= fun done => match done.1.observer.finish with
        | .error divergence => .error (witnessFault divergence)
        | .ok witness => .ok (fillSlots prepared ran.1 done.1.accepted, done.1, done.2, witness) := rfl
  simp only [unwindStage] at ends
  rw [ended] at tracks ends
  rcases tracks trivial with ⟨b, engine, failed, rfl, healthy⟩ | ⟨⟨e, failed, unwound⟩, never⟩
  · cases failed
    simp only [engine, bind, Except.bind] at staged
    dsimp only at ends
    have injected := unwindInjection_settles clock atStart prepared healthy
    generalize unwindInjection H clock prepared u = done at injected ends
    obtain ⟨e | _, u'⟩ := done
    · obtain ⟨drained, unwound⟩ := injected
      refine .inr ⟨⟨e, ?_⟩, ends ▸ unwound.conforms⟩
      cases injected : drainInjection H clock prepared u.run with
      | error fault =>
        rw [injected] at drained
        cases drained
        simpa only [injected] using staged
      | ok done =>
        rw [injected] at drained
        cases drained
    · obtain ⟨drained, healthy⟩ := injected
      obtain ⟨⟨b, log⟩, injected, same⟩ := bind_eq_ok.mp drained
      obtain rfl : b = u'.run := congrArg Prod.snd (Except.ok.inj same)
      simp only [injected] at staged
      cases finish : u'.observer.observer.finish with
      | error divergence =>
        simp only [Unwinding.run, finish] at staged ends
        exact .inr ⟨⟨_, staged⟩, .inr (ends ▸ healthy.frames.abort atStart)⟩
      | ok witness =>
        obtain ⟨rfl, exact, begun⟩ := healthy.sound.finish finish
        simp only [Unwinding.run, finish] at staged ends
        exact .inl ⟨_, _, _, staged, ends ▸ rfl, ends ▸ .of_exact exact begun⟩
  · cases failed
    refine .inr ⟨?_, ends ▸ unwound.conforms⟩
    cases units : runUnits (hostUnits H clock) H.wire .batch ops prepared start.run with
    | error fault => exact ⟨fault, by rw [staged, units]; rfl⟩
    | ok done => exact (never _ _ units).elim

/-- **Witnessed replay is sound**, whatever the witness and whatever is substituted. A replay that
returns consumed the witness completely and in order: one first run for each entry, every run, first or
repeated, with exactly the reads and dispatches its entry holds; and it returns that witness. A replay
that departs from the witness anywhere returns an error, commits no module, and leaves every module's
overlay as the block found it. -/
theorem replay_sound (hook : CommitWitness J) (ctx : BlockContext) (ops : List BlockOp)
    (prepared : PreparedWork) (commitOnly : Option (Finset ModuleId)) (host : HostState C) (sink : J)
    {ending : Ending C O} (ends : ending = unwindStage H ⟨ctx.height, ctx.consensusTime, host.clock⟩ ops
      prepared (.journaled W D) host.committed) :
    (∀ outcome host' sink', applyBlock H hook ctx ops prepared (.journaled W D) .batch commitOnly host sink
        = (.ok outcome, host', sink') →
      ending.finished = true ∧ ending.Conforms W ∧ outcome.witness = W) ∧
    (¬ ending.Conforms W →
      (∃ fault, applyBlock H hook ctx ops prepared (.journaled W D) .batch commitOnly host sink
        = (.error fault, host, sink)) ∧
      ending.stages = H.registry.boundary host.committed) := by
  rcases unwindStage_ends _ ops prepared host.committed ends with ⟨tables, b, log, staged, finished, conforms⟩ | ⟨⟨fault, staged⟩, conforms⟩
  · refine ⟨fun outcome host' sink' ran => ⟨finished, conforms, ?_⟩, fun departs => absurd conforms departs⟩
    simp only [applyBlock, staged] at ran
    split at ran
    · cases ran
    split at ran
    · cases ran
    · cases ran
      rfl
  · have failed : applyBlock H hook ctx ops prepared (.journaled W D) .batch commitOnly host sink
        = (.error fault, host, sink) := by
      simp only [applyBlock, staged]
    refine ⟨fun outcome host' sink' ran => ?_, fun departs => ⟨⟨fault, failed⟩, ?_⟩⟩
    · cases failed.symm.trans ran
    · exact conforms.resolve_left departs

end Sound

/-- What a block of counts and a refused count leaves as its witness. -/
def tallyWitness : Witness :=
  match applyBlock tallyHost noWitness ⟨1, 1⟩ tallyOps default .live .batch none tallyStart () with
  | (.ok outcome, _) => outcome.witness
  | (.error _, _) => ⟨[]⟩

theorem replay_sound_tally :
    (∃ outcome host', applyBlock tallyHost noWitness ⟨1, 1⟩ tallyOps default
        (.journaled tallyWitness {"left"}) .batch (some {"right"}) tallyStart () = (.ok outcome, host', ()) ∧
      outcome.witness = tallyWitness) ∧
    (∃ fault, applyBlock tallyHost noWitness ⟨1, 1⟩ tallyOps default (.journaled ⟨[]⟩ ∅) .batch none
        tallyStart () = (.error fault, tallyStart, ())) := by
  obtain ⟨outcome, host', ran⟩ : ∃ outcome host', applyBlock tallyHost noWitness ⟨1, 1⟩ tallyOps default
      (.journaled tallyWitness {"left"}) .batch (some {"right"}) tallyStart () = (.ok outcome, host', ()) :=
    ⟨_, _, rfl⟩
  refine ⟨⟨outcome, host', ran, ?_⟩, ?_⟩
  · exact ((replay_sound noWitness ⟨1, 1⟩ tallyOps default (some {"right"}) tallyStart ()
      rfl).1 _ _ _ ran).2.2
  · refine ((replay_sound noWitness ⟨1, 1⟩ tallyOps default none tallyStart () rfl).2
      fun conforms => ?_).1
    obtain ⟨next, matched⟩ := conforms.current _ rfl
    rw [show (Witness.mk []).entry _ = [] from rfl, List.take_nil] at matched
    cases matched

end Ducktape
