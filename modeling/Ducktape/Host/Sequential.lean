import Ducktape.Host.Lockstep
import Ducktape.Host.Tracking
import Mathlib.Data.Finset.Lattice.Lemmas

/-! # Units as transactions

What a block is for: every accepted unit takes effect whole and in order, and a rejected one leaves
nothing. `transact` runs the steps of a unit on their own, and `sequential` is the unit runner that
composes accepted units that way, with no rollback and no observer. It keeps two things the host's
bookkeeping can be compared with: the trace of every attempted unit, and which rejected units the
host rolls back.

`Composes` says a list of accepted units, run one after another, leads from one stage to another;
`replayAccepted_composes` is the host's replay of such a list. -/

namespace Ducktape

open Lib List Observing Finset

/-- Why the host rolls a unit back. -/
inductive Rollback
  /-- The unit rejected after these modules had been dispatched. -/
  | rejected (touched : Finset ModuleId)
  /-- The unit's finalizer or acknowledgment failed. -/
  | unextended
  deriving DecidableEq

/-- Does a host that stands records in for the modules `D` roll the unit back too? -/
def Rollback.reaches (D : Finset ModuleId) : Rollback → Bool
  | .rejected touched => touched \ D ≠ ∅
  | .unextended => true

/-- The state of a block whose units are transactions. -/
structure Sequential (C O : Type) where
  /-- The stages the accepted units leave. -/
  stages : Stages C O
  touched : Finset ModuleId
  accepted : List AcceptedUnit
  rollbacks : List Rollback
  /-- How many units found the replay budget used up. -/
  skipped : Nat
  /-- The traces of the units that ended, in attempt order. -/
  units : List Observed
  /-- The trace of the accepted unit in flight. -/
  flight : Option (List Trace)

namespace Sequential

variable {C O : Type}

/-- The block before its first unit. -/
def start (σ : Stages C O) : Sequential C O := ⟨σ, ∅, [], [], 0, [], none⟩

/-- Has the replay budget run out? -/
def exhausted (s : Sequential C O) : Bool := s.rollbacks.length > maxBlockReplays

/-- End the unit in flight. -/
def close (s : Sequential C O) : Sequential C O :=
  { s with units := s.units ++ s.flight.toList.map Observed.mk, flight := none }

/-- Add an ended entry, of a unit that takes no effect or of an authority read. -/
def record (s : Sequential C O) (trace : List Trace) (rollbacks : List Rollback) :
    Sequential C O :=
  { s.close with units := s.close.units ++ [⟨trace⟩], rollbacks := s.rollbacks ++ rollbacks }

@[simp] theorem close_of_none {s : Sequential C O} (none : s.flight = none) : s.close = s := by
  cases s; simp_all [close]

end Sequential

section Runner

variable {C O : Type} (H : Host C O) (clock : BlockClock)

/-- Run steps on their own: the verdict, the stages and the trace they leave, and what they add. -/
def transact (steps : List Step) (σ : Stages C O) :
    Except Error Unit × Machine C O (List Trace) × Log :=
  runSteps H Watch.direct clock steps ⟨σ, []⟩

/-- What the host rolls back when a unit that dispatched `touched` rejects. -/
def rollbackOf (touched : Finset ModuleId) : List Rollback :=
  if touched ≠ ∅ then [.rejected touched] else []

/-- Attempt a unit as a transaction. -/
def Sequential.runUnit (steps : List Step) (s : Sequential C O) :
    Except SubmitError (UnitVerdict × Sequential C O) :=
  if s.exhausted then .ok (.unattempted, { s with skipped := s.skipped + 1 })
  else
    match transact H clock steps s.stages with
    | (.ok (), machine, log) =>
      .ok (.accepted ⟨.member 0, .member, steps, log.events, log.dispatches, s.close.units.length⟩,
        { s.close with flight := some machine.observer })
    | (.error reason, machine, log) =>
      .ok (.rejected reason, s.record machine.observer (rollbackOf log.touched))

/-- Extend the accepted unit in flight. -/
def Sequential.extendUnit (unit : AcceptedUnit) (steps : List Step) (s : Sequential C O) :
    Except SubmitError (Except String AcceptedUnit × Sequential C O) :=
  match s.flight with
  | none => .ok (.error "no unit is in flight", s)
  | some trace =>
    let staged := (transact H clock unit.steps s.stages).2.1.stages
    match runSteps H Watch.direct clock steps ⟨staged, trace⟩ with
    | (.ok (), machine, log) =>
      .ok (.ok { unit with steps := unit.steps ++ steps, events := unit.events ++ log.events,
                           dispatches := unit.dispatches ++ log.dispatches },
        { s with flight := some machine.observer })
    | (.error reason, machine, _) =>
      .ok (.error reason.display, { s with flight := none }.record machine.observer [.unextended])

/-- The authority a call has on the stages the accepted units leave, with the reads it took. -/
def authorityOn (call : PreparedCall) (σ : Stages C O) : Except Error Verdict × List Trace :=
  (callAuthority H.wire call).run (Watch.direct.observe (H.registry.hostAnswer σ clock.committed)) []

/-- Decide a call's authority on the stages the accepted units leave. -/
def Sequential.authority (call : PreparedCall) (s : Sequential C O) :
    Except SubmitError (Option Verdict × Sequential C O) :=
  if s.exhausted then .ok (none, { s with skipped := s.skipped + 1 })
  else
    match authorityOn H clock call s.stages with
    | (.ok verdict, reads) => .ok (some verdict, s.record reads [])
    | (.error e, _) => .error (authorityFault e)

/-- Let an accepted unit take effect. -/
def Sequential.accept (unit : AcceptedUnit) (s : Sequential C O) : Sequential C O :=
  let ran := transact H clock unit.steps s.stages
  { s.close with
    stages := ran.2.1.stages
    touched := s.touched ∪ ran.2.2.touched
    accepted := s.accepted ++ [unit] }

/-- The runner that composes accepted units in order. -/
def sequential : Units (Sequential C O) where
  runUnit := Sequential.runUnit H clock
  extendUnit := Sequential.extendUnit H clock
  authority := Sequential.authority H clock
  accept := Sequential.accept H clock

end Runner

/-! ## Where an observer stands -/

namespace Observation

/-- The observer's mode under an observation source. -/
def mode : Observation → Mode
  | .live => .live
  | .journaled _ substitute => .replay substitute

/-- The modules whose dispatches are stood in for. -/
def substituted : Observation → Finset ModuleId
  | .live => ∅
  | .journaled _ substitute => substitute

/-- The entries the observer holds when `units` have been attempted. -/
def held (obs : Observation) (units : List Observed) : List Observed :=
  match obs with
  | .live => units
  | .journaled witness _ => witness.units

/-- The source allows the entries `units`, and a further entry that starts with the trace in
flight. -/
def Covers : Observation → List Observed → Option (List Trace) → Prop
  | .live, _, _ => True
  | .journaled witness _, units, none => units <+: witness.units
  | .journaled witness _, units, some trace =>
    ∃ full, units ++ [⟨full⟩] <+: witness.units ∧ trace <+: full

variable {obs : Observation} {units : List Observed} {t t' : List Trace}

theorem Covers.of_ended (covers : obs.Covers (units ++ [⟨t⟩]) none) : obs.Covers units (some t) := by
  cases obs with
  | live => trivial
  | journaled witness substitute => exact ⟨t, covers, prefix_refl t⟩

theorem Covers.settled (covers : obs.Covers units (some t)) : obs.Covers units none := by
  cases obs with
  | live => trivial
  | journaled witness substitute =>
    obtain ⟨full, covered, -⟩ := covers
    exact (prefix_append units _).trans covered

theorem Covers.shorter (covers : obs.Covers units (some (t ++ t'))) : obs.Covers units (some t) := by
  cases obs with
  | live => trivial
  | journaled witness substitute =>
    obtain ⟨full, covered, starts⟩ := covers
    exact ⟨full, covered, (prefix_append t t').trans starts⟩

end Observation

namespace Observing

/-- The observer between units: `units` have ended and nothing of the last entry is unserved. -/
structure Stands (obs : Observation) (units : List Observed) (o : Observing) : Prop where
  mode : o.mode = obs.mode
  undiverged : o.divergence = none
  attempted : o.attempted = units.length
  closed : o.closeOpen = o
  held : o.units = obs.held units
  covers : obs.Covers units none

/-- The observer inside a unit, after its trace `t`. -/
structure InFlight (obs : Observation) (units : List Observed) (t : List Trace) (o : Observing) :
    Prop where
  mode : o.mode = obs.mode
  undiverged : o.divergence = none
  attempted : o.attempted = units.length + 1
  opened : ∃ next, o.opened = .unit units.length next ∧ (obs ≠ .live → next = t.length)
  held : o.units = obs.held (units ++ [⟨t⟩])
  covers : obs.Covers units (some t)

variable {obs : Observation} {units : List Observed} {t t' : List Trace} {o : Observing}

theorem substituted_of_mode (mode : o.mode = obs.mode) : o.substituted = obs.substituted := by
  rw [substituted, mode]
  cases obs <;> rfl

/-- Opening a unit. -/
theorem Stands.begin (stands : Stands obs units o) (covers : obs.Covers units (some [])) :
    o.beginUnit.1 = units.length ∧ InFlight obs units [] o.beginUnit.2 := by
  obtain ⟨mode, undiverged, attempted, closed, held, -⟩ := stands
  simp only [beginUnit, closed]
  refine ⟨attempted, mode, undiverged, by rw [attempted], ⟨0, by rw [attempted], fun _ => rfl⟩, ?_,
    covers⟩
  cases obs with
  | live | journaled => simp only [mode, Observation.mode, held, Observation.held]

/-- Going on inside a unit. -/
theorem InFlight.extend (flight : InFlight obs units t o)
    (covers : obs.Covers units (some (t ++ t'))) :
    o.Fits t' ∧ InFlight obs units (t ++ t') (o.advance t') := by
  obtain ⟨mode, undiverged, attempted, ⟨next, opened, position⟩, held, -⟩ := flight
  cases obs with
  | live =>
    simp only [Observation.held, Observation.mode] at held mode
    refine ⟨⟨undiverged, ?_⟩, mode_advance.trans mode, by simpa using undiverged,
      by simpa using attempted, ⟨next, ?_, fun live => absurd rfl live⟩, ?_, covers⟩
    · simp only [mode, opened, held, length_append, length_singleton]
      omega
    · simp only [advance, mode, opened]
    · simp only [advance, mode, opened, held, Observation.held]
      rw [modify_eq_set_getElem?]
      simp
  | journaled witness substitute =>
    simp only [Observation.held, Observation.mode] at held mode
    have atNext := position (by simp)
    obtain ⟨full, covered, rest, whole⟩ := covers
    have found : o.units[units.length]? = some ⟨full⟩ := by
      obtain ⟨more, eq⟩ := covered
      rw [held, ← eq]
      simp
    refine ⟨⟨undiverged, ?_⟩, mode_advance.trans mode, by simpa using undiverged,
      by simpa using attempted, ⟨next + t'.length, ?_, fun _ => by simp [atNext]⟩, ?_,
      full, covered, rest, whole⟩
    · simp only [mode, opened]
      refine ⟨_, found, rest, ?_⟩
      rw [← whole, atNext, append_assoc, drop_left]
    · simp only [advance, mode, opened]
    · simp only [advance, mode, opened, held, Observation.held]

/-- Ending a unit. -/
theorem InFlight.close (flight : InFlight obs units t o)
    (covers : obs.Covers (units ++ [⟨t⟩]) none) : Stands obs (units ++ [⟨t⟩]) o := by
  obtain ⟨mode, undiverged, attempted, ⟨next, opened, position⟩, held, -⟩ := flight
  refine ⟨mode, undiverged, by rw [attempted, length_append, length_singleton], ?_, held, covers⟩
  cases obs with
  | live => simp only [closeOpen, mode, Observation.mode]
  | journaled witness substitute =>
    obtain ⟨more, eq⟩ := covers
    have found : o.units[units.length]? = some ⟨t⟩ := by
      rw [held, Observation.held, ← eq]
      simp
    have served : t[next]? = none := by rw [position (by simp)]; simp
    simp only [closeOpen, mode, Observation.mode, opened, found, served]

/-- Re-running an accepted unit. -/
theorem Stands.resume (stands : Stands obs units o) {entry : Nat}
    (found : units[entry]? = some ⟨t⟩) :
    (o.resume entry).Fits t ∧ Stands obs units ((o.resume entry).advance t) := by
  obtain ⟨mode, undiverged, attempted, closed, held, covers⟩ := stands
  cases obs with
  | live =>
    simp only [Observation.mode] at mode
    have unrecorded : o.resume entry = { o with opened := .unrecorded } := by
      simp only [Observing.resume, closed, mode]
    rw [unrecorded]
    refine ⟨⟨undiverged, by simp only [mode]⟩, ?_⟩
    simp only [advance, mode]
    exact ⟨rfl, undiverged, attempted, by simp only [closeOpen], held, covers⟩
  | journaled witness substitute =>
    simp only [Observation.mode] at mode
    have reopened : o.resume entry = { o with opened := .unit entry 0 } := by
      simp only [Observing.resume, closed, mode]
    have recorded : o.units[entry]? = some ⟨t⟩ := by
      obtain ⟨more, eq⟩ := covers
      rw [held, Observation.held, ← eq]
      rw [List.getElem?_append_left (List.getElem?_eq_some_iff.mp found).1, found]
    rw [reopened]
    refine ⟨⟨undiverged, ?_⟩, ?_⟩
    · simp only [mode]
      exact ⟨_, recorded, [], by simp⟩
    · simp only [advance, mode]
      refine ⟨rfl, undiverged, attempted, ?_, held, covers⟩
      simp [closeOpen, recorded]

end Observing

/-! ## Composing accepted units -/

section Composes

variable {C O : Type} (H : Host C O) (clock : BlockClock)

variable {verdict : Except Error Unit} {trace : List Trace}

/-- What a transaction does, and that the host follows it. -/
theorem transact_runs {steps : List Step} {σ σ₁ : Stages C O} {log : Log}
    (ran : transact H clock steps σ = (verdict, ⟨σ₁, trace⟩, log)) :
    Runs H (runSteps H Watch.direct clock steps) (runSteps H watch clock steps)
      σ verdict σ₁ log trace := by
  obtain ⟨verdict', σ₁', log', trace', runs⟩ := runSteps_runs H clock steps σ
  have direct := runs.direct []
  obtain ⟨rfl, ⟨rfl, rfl⟩, rfl⟩ :
      verdict' = verdict ∧ (σ₁' = σ₁ ∧ trace' = trace) ∧ log' = log := by
    simpa using direct.symm.trans ran
  exact runs

/-- Steps run in two halves, the second only if the first applies. -/
theorem runSteps_append {Ω : Type} (W : Watch Ω) (first second : List Step) (s : Machine C O Ω) :
    runSteps H W clock (first ++ second) s
      = match runSteps H W clock first s with
        | (.error e, s, log) => (.error e, s, log)
        | (.ok (), s, log) =>
          let rest := runSteps H W clock second s
          (rest.1, rest.2.1, log ++ rest.2.2) := by
  fun_induction runSteps H W clock first s with
  | case1 => simp
  | case2 step first s e s' log failed => simp only [cons_append, runSteps, failed]
  | case3 step first s s' log applied rest ih =>
    simp only [cons_append, runSteps, applied, ih, rest]
    rcases runSteps H W clock first s' with ⟨_ | _, _, _⟩ <;> simp only [Log.append_assoc]

/-- Two transactions in a row are one. -/
theorem transact_append {first second : List Step} {σ σ₁ σ₂ : Stages C O} {t t' : List Trace}
    {log log' : Log} (ran : transact H clock first σ = (.ok (), ⟨σ₁, t⟩, log))
    (ran' : transact H clock second σ₁ = (verdict, ⟨σ₂, t'⟩, log')) :
    transact H clock (first ++ second) σ = (verdict, ⟨σ₂, t ++ t'⟩, log ++ log') := by
  rw [transact] at ran
  rw [transact, runSteps_append, ran]
  simp only [(transact_runs H clock ran').direct t]

/-- The accepted units, run one after another from the first stages, end in the second ones with
these modules touched; each kept what its own run adds, and its trace is its entry of `units`. -/
inductive Composes (units : List Observed) :
    Stages C O → List AcceptedUnit → Stages C O → Finset ModuleId → Prop
  | nil (σ : Stages C O) : Composes units σ [] σ ∅
  | cons {σ σ₁ σ' : Stages C O} {unit : AcceptedUnit} {rest : List AcceptedUnit}
      {trace : List Trace} {log : Log} {touched : Finset ModuleId}
      (ran : transact H clock unit.steps σ = (.ok (), ⟨σ₁, trace⟩, log))
      (events : unit.events = log.events) (dispatches : unit.dispatches = log.dispatches)
      (entry : units[unit.entry]? = some ⟨trace⟩)
      (composes : Composes units σ₁ rest σ' touched) :
      Composes units σ (unit :: rest) σ' (log.touched ∪ touched)

variable {H clock} {units : List Observed} {σ σ' : Stages C O} {accepted : List AcceptedUnit}
  {touched : Finset ModuleId}

namespace Composes

section

variable (composes : Composes H clock units σ accepted σ' touched)
include composes

/-- Further entries do not matter. -/
theorem more (later : List Observed) : Composes H clock (units ++ later) σ accepted σ' touched := by
  induction composes with
  | nil σ => exact .nil σ
  | cons ran events dispatches entry _ ih =>
    refine .cons ran events dispatches ?_ ih
    rw [List.getElem?_append_left (List.getElem?_eq_some_iff.mp entry).1, entry]

/-- One more unit on top. -/
theorem snoc {unit : AcceptedUnit} {σ₁ : Stages C O} {log : Log}
    (ran : transact H clock unit.steps σ' = (.ok (), ⟨σ₁, trace⟩, log))
    (events : unit.events = log.events) (dispatches : unit.dispatches = log.dispatches)
    (entry : units[unit.entry]? = some ⟨trace⟩) :
    Composes H clock units σ (accepted ++ [unit]) σ₁ (touched ∪ log.touched) := by
  induction composes with
  | nil σ =>
    rw [empty_union, ← union_empty log.touched]
    exact .cons ran events dispatches entry (.nil σ₁)
  | cons ran' events' dispatches' entry' _ ih =>
    rw [union_assoc]
    exact .cons ran' events' dispatches' entry' (ih ran)

/-- Only touched modules moved. -/
theorem frame : ∀ id ∉ touched, σ' id = σ id := by
  induction composes with
  | nil σ => exact fun _ _ => rfl
  | cons ran _ _ _ _ ih =>
    intro id out
    obtain ⟨before, after⟩ := not_or.mp fun mem => out (mem_union.mpr mem)
    exact (ih id after).trans ((transact_runs H clock ran).frame id before)

/-- Nothing was committed. -/
theorem committed (id : ModuleId) : (σ' id).committed = (σ id).committed := by
  induction composes with
  | nil σ => rfl
  | cons ran _ _ _ _ ih => exact ih.trans ((transact_runs H clock ran).committed id)

/-- Only registered modules are touched. -/
theorem registered : ∀ id ∈ touched, id ∈ H.registry.ids := by
  induction composes with
  | nil σ => simp
  | cons ran _ _ _ _ ih =>
    intro id mem
    exact (mem_union.mp mem).elim ((transact_runs H clock ran).registered id) (ih id)

/-- The units' steps in a row are one transaction with the same end. -/
theorem transact_flatMap :
    ∃ trace log, transact H clock (accepted.flatMap (·.steps)) σ = (.ok (), ⟨σ', trace⟩, log) ∧
      log.touched = touched ∧ log.events = accepted.flatMap (·.events) ∧
      log.dispatches = accepted.flatMap (·.dispatches) := by
  induction composes with
  | nil σ => exact ⟨[], .empty, rfl, rfl, rfl, rfl⟩
  | cons ran events dispatches _ _ ih =>
    obtain ⟨trace, log, rest, touched, events', dispatches'⟩ := ih
    refine ⟨_, _, transact_append H clock ran rest, ?_, ?_, ?_⟩
    · rw [Log.touched_append, touched]
    · rw [Log.events_append, flatMap_cons, events', events]
    · rw [Log.dispatches_append, flatMap_cons, dispatches', dispatches]

end

end Composes

/-- The stages of a block's start: nothing is staged at a registered module. -/
def AtBoundary (H : Host C O) (σ : Stages C O) : Prop :=
  ∀ id, (σ id).overlay = (H.registry.code id).fresh (σ id).committed

variable {all : List Observed} {obs : Observation}

/-- The host replays accepted units to where they lead. -/
theorem replayAccepted_composes {pre' : Stages C O}
    (composes : Composes H clock all σ accepted σ' touched) :
    ∀ b : BlockRun C O, b.stages = keep obs.substituted pre' σ → b.observer.Stands obs all →
      ∃ o, o.Stands obs all ∧
        replayAccepted H clock accepted b = .ok (accepted,
          { b with stages := keep obs.substituted pre' σ', observer := o,
                   touched := b.touched ∪ (touched \ obs.substituted) }) := by
  induction composes with
  | nil σ =>
    intro b stages stands
    refine ⟨b.observer, stands, ?_⟩
    rw [replayAccepted, ← stages, empty_sdiff, union_empty]
  | cons ran events dispatches entry _ ih =>
    rename_i σ σ₁ σ' unit rest trace log touched _
    intro b stages stands
    obtain ⟨fits, stands₁⟩ := stands.resume entry
    have sub := substituted_of_mode stands₁.mode
    rw [substituted_advance] at sub
    have follows := (transact_runs H clock ran).follows b.stages (b.observer.resume unit.entry)
      (by rw [sub, stages]; exact agree_keep _ _ _) fits
    rw [sub, stages, keep_keep] at follows
    obtain ⟨o, stands₂, replayed⟩ := ih (b.ran ⟨keep obs.substituted pre' σ₁,
      (b.observer.resume unit.entry).advance trace⟩ (log.cut obs.substituted)) rfl stands₁
    refine ⟨o, stands₂, ?_⟩
    have undiverged : ((b.observer.resume unit.entry).advance trace).divergence = none :=
      stands₁.undiverged
    rw [replayAccepted, stages, follows]
    simp only [checkWitness, BlockRun.ran, undiverged, Log.cut, bind, Except.bind] at replayed ⊢
    rw [replayed]
    simp only [← events, ← dispatches, union_sdiff_distrib, union_assoc]

/-- Aborting what a block touched brings its start back, except at the substituted modules, which it
never reached. -/
theorem abortAll_restores {D T : Finset ModuleId} {pre pre' : Stages C O} (atStart : AtBoundary H pre)
    (frame : ∀ id ∉ T, σ id = pre id) (committed : ∀ id, (σ id).committed = (pre id).committed)
    (registered : ∀ id ∈ T, id ∈ H.registry.ids) :
    abortAll H (T \ D) (keep D pre' σ) = keep D pre' pre := by
  funext id
  by_cases sub : id ∈ D
  · simp [abortAll, keep, sub]
  by_cases mem : id ∈ T
  · have fresh : ⟨(pre id).committed, (H.registry.code id).fresh (pre id).committed⟩
        = pre id := by rw [← atStart id]
    simp [abortAll, keep, sub, mem, registered id mem, committed id, fresh]
  · simp [abortAll, keep, mem, frame id mem]

/-- Isolation leaves the accepted units and nothing else. -/
theorem isolate_composes {pre pre' : Stages C O} {T : Finset ModuleId} {b : BlockRun C O}
    (atStart : AtBoundary H pre) (frame : ∀ id ∉ T, σ id = pre id)
    (committed : ∀ id, (σ id).committed = (pre id).committed)
    (registered : ∀ id ∈ T, id ∈ H.registry.ids)
    (composes : Composes H clock all pre b.accepted σ' touched)
    (stages : b.stages = keep obs.substituted pre' σ) (reached : b.touched = T \ obs.substituted)
    (stands : b.observer.Stands obs all) :
    ∃ o, o.Stands obs all ∧
      isolate H clock b = .ok
        { b with stages := keep obs.substituted pre' σ', observer := o,
                 touched := touched \ obs.substituted, replays := b.replays + 1 } := by
  obtain ⟨o, stands', replayed⟩ := replayAccepted_composes composes
    { b with stages := abortAll H b.touched b.stages, touched := ∅ }
    (by rw [stages, reached]; exact abortAll_restores atStart frame committed registered) stands
  refine ⟨o, stands', ?_⟩
  rw [isolate, replayed]
  simp only [empty_union, bind, Except.bind]

end Composes

end Ducktape
