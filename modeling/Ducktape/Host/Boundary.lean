import Ducktape.Host.Refinement

/-! # The end of a block

What follows a block's units: the injection, as one more transaction on top of the accepted units
(`Settled.injects`), the witness the observer ends with (`Observing.Stands.finish`), and the boundary,
which commits the touched modules and leaves the others (`commitBoundary_ok`). -/

namespace Ducktape

open Lib Function List

/-- The once-per-block injection as steps. -/
def injectionSteps (prepared : PreparedWork) : List Step :=
  (prepared.advance.map fun msg => Step.op .system .direct msg).toList

section Injection

variable {C O : Type} {H : Host C O} {clock : BlockClock} {obs : Observation}
  {pre pre' : Stages C O} {s : Sequential C O} {b : BlockRun C O}

theorem drainQueue_injection {Ω : Type} (W : Watch Ω) (prepared : PreparedWork)
    (m : Machine C O Ω) :
    drainQueue H W clock (prepared.advance.map fun msg => (.system, .direct, msg)).toList m
      = runSteps H W clock (injectionSteps prepared) m := by
  unfold injectionSteps
  cases prepared.advance with
  | none => rfl
  | some msg =>
    simp only [Option.map_some, Option.toList_some, runSteps, runStep]
    generalize drainQueue H W clock [(.system, .direct, msg)] m = drained
    obtain ⟨verdict, m₁, log⟩ := drained
    cases verdict <;> simp

/-- The injection runs on top of the accepted units. -/
theorem Settled.injects (settled : Settled H clock obs pre pre' s b) {prepared : PreparedWork}
    {verdict : Except Error Unit} {σ₁ : Stages C O} {t : List Trace} {log : Log}
    (ran : transact H clock (injectionSteps prepared) s.stages = (verdict, ⟨σ₁, t⟩, log))
    (covers : obs.Covers (s.units ++ [⟨t⟩]) none) :
    ∃ o, o.Stands obs (s.units ++ [⟨t⟩]) ∧
      drainInjection H clock prepared b = verdict.casesOn (fun reason => .error (.rejected reason))
        (fun _ => .ok (b.ran ⟨keep obs.substituted pre' σ₁, o⟩ (log.cut obs.substituted),
          log.cut obs.substituted)) := by
  obtain ⟨-, opened⟩ := settled.observer.begin (Observation.Covers.shorter covers.of_ended)
  obtain ⟨driven, flight⟩ := runSteps_inFlight pre' ran opened covers.of_ended
  have stands := flight.close covers
  refine ⟨_, stands, ?_⟩
  have checked : checkWitness (b.ran ⟨keep obs.substituted pre' σ₁,
      b.observer.beginUnit.2.advance t⟩ (log.cut obs.substituted)) = .ok () :=
    checkWitness_ran stands.undiverged
  simp only [drainInjection, drainQueue_injection, settled.stages, driven, checked]
  cases verdict <;> rfl

/-- The witness is complete. -/
theorem Observing.Stands.finish {units : List Observed} {o : Observing} (stands : o.Stands obs units)
    (complete : obs.held units = units) : o.finish = .ok ⟨units⟩ := by
  obtain ⟨mode, undiverged, attempted, closed, held, -⟩ := stands
  rw [complete] at held
  cases obs with
  | live => simp [Observing.finish, closed, mode, Observation.mode, undiverged, held]
  | journaled witness substitute =>
    simp [Observing.finish, closed, mode, Observation.mode, undiverged, held, attempted]

end Injection

section Commit

variable {C O : Type} {H : Host C O} {touched : Finset ModuleId}
  {commitOnly : Option (Finset ModuleId)} {σ : Stages C O} {ids : List ModuleId}
  {committed committed' : ModuleId → C}

/-- The modules a boundary commits. -/
def Commits (touched : Finset ModuleId) (commitOnly : Option (Finset ModuleId)) (id : ModuleId) :
    Prop := id ∈ touched ∧ commitOnly.all (id ∈ ·)

/-- A boundary that succeeds commits exactly the modules it is to commit. -/
theorem commitBoundary_ok (nodup : ids.Nodup) :
    commitBoundary H touched commitOnly σ ids committed = (.ok (), committed') ↔
      (∀ id ∈ ids, Commits touched commitOnly id →
        (H.registry.code id).commit (σ id).committed (σ id).overlay = .ok (committed' id)) ∧
      ∀ id, ¬ (id ∈ ids ∧ Commits touched commitOnly id) → committed' id = committed id := by
  fun_induction commitBoundary H touched commitOnly σ ids committed with
  | case1 committed => simp [funext_iff, eq_comm]
  | case2 head ids committed commits c folded ih =>
    obtain ⟨fresh, nodup⟩ := nodup_cons.mp nodup
    have here : Commits touched commitOnly head := commits
    rw [ih nodup]
    constructor <;> rintro ⟨done, kept⟩ <;> refine ⟨?_, ?_⟩ <;> grind
  | case3 head ids committed commits source failed =>
    refine iff_of_false nofun fun ⟨done, _⟩ => ?_
    cases failed.symm.trans (done head mem_cons_self commits)
  | case4 head ids committed skips ih =>
    obtain ⟨fresh, nodup⟩ := nodup_cons.mp nodup
    have here : ¬ Commits touched commitOnly head := skips
    rw [ih nodup]
    constructor <;> rintro ⟨done, kept⟩ <;> refine ⟨?_, ?_⟩ <;> grind

/-- A failed boundary is fatal. -/
theorem commitBoundary_error {e : SubmitError}
    (ended : commitBoundary H touched commitOnly σ ids committed = (.error e, committed')) :
    ∃ fault, e = .fatal fault := by
  fun_induction commitBoundary H touched commitOnly σ ids committed with
  | case1 => cases ended
  | case3 =>
    cases ended
    exact ⟨_, rfl⟩
  | case2 _ _ _ _ _ _ ih | case4 _ _ _ _ ih => exact ih ended

end Commit

section Hook

variable {C O J J' : Type} {H : Host C O} {hook : CommitWitness J} {hook' : CommitWitness J'}
  {ctx : BlockContext} {ops : List BlockOp} {prepared : PreparedWork} {observation : Observation}
  {admission : Admission} {commitOnly : Option (Finset ModuleId)} {host host' : HostState C}
  {sink sink' : J} {ended : Except SubmitError BatchOutcome}

/-- A block leaves its sink alone or records one witness; past that point only a fault fails it. -/
theorem applyBlock_sink
    (ran : applyBlock H hook ctx ops prepared observation admission commitOnly host sink
      = (ended, host', sink')) :
    (sink' = sink ∧ ∃ e, ended = .error e) ∨
    ∃ witness, sink' = (hook.record ctx.height witness sink).2 ∧
      ∀ e, ended = .error e → ∃ fault, e = .fatal fault := by
  simp only [applyBlock] at ran
  split at ran
  · cases ran
    exact .inl ⟨rfl, _, rfl⟩
  rename_i witness staged
  refine .inr ⟨witness, ?_⟩
  split at ran
  · rename_i recorded
    cases ran
    exact ⟨by rw [recorded], by rintro _ ⟨⟩; exact ⟨_, rfl⟩⟩
  rename_i recorded
  split at ran
  · rename_i failed
    cases ran
    exact ⟨by rw [recorded], by rintro _ ⟨⟩; exact commitBoundary_error failed⟩
  · cases ran
    exact ⟨by rw [recorded], by rintro _ ⟨⟩⟩

/-- A rejected block left its sink alone. -/
theorem applyBlock_rejected_sink {e : Error}
    (ran : applyBlock H hook ctx ops prepared observation admission commitOnly host sink
      = (.error (.rejected e), host', sink')) : sink' = sink := by
  rcases applyBlock_sink ran with ⟨same, -⟩ | ⟨-, -, faults⟩
  · exact same
  · obtain ⟨fault, eq⟩ := faults _ rfl
    cases eq

/-- A settled block recorded its witness. -/
theorem applyBlock_ok_sink {outcome : BatchOutcome}
    (ran : applyBlock H hook ctx ops prepared observation admission commitOnly host sink
      = (.ok outcome, host', sink')) : ∃ witness, sink' = (hook.record ctx.height witness sink).2 := by
  rcases applyBlock_sink ran with ⟨-, e, eq⟩ | ⟨witness, recorded, -⟩
  · cases eq
  · exact ⟨witness, recorded⟩

/-- A block that ends without a fault ends the same under any hook that takes its witness. -/
theorem applyBlock_hook
    (ran : applyBlock H hook ctx ops prepared observation admission commitOnly host sink
      = (ended, host', sink')) (settled : ∀ fault, ended ≠ .error (.fatal fault)) {sink₁ : J'}
    (accepts : ∀ witness, (hook'.record ctx.height witness sink₁).1 = .ok ()) :
    ∃ sink₂, applyBlock H hook' ctx ops prepared observation admission commitOnly host sink₁
      = (ended, host', sink₂) := by
  simp only [applyBlock] at ran ⊢
  split at ran
  · cases ran
    exact ⟨sink₁, rfl⟩
  rename_i witness staged
  split at ran
  · cases ran
    exact absurd rfl (settled _)
  obtain ⟨sink₂, recorded⟩ : ∃ sink₂, hook'.record ctx.height witness sink₁ = (.ok (), sink₂) :=
    ⟨_, Prod.ext (accepts witness) rfl⟩
  split at ran
  · rename_i failed
    cases ran
    obtain ⟨fault, rfl⟩ := commitBoundary_error failed
    exact absurd rfl (settled fault)
  · cases ran
    exact ⟨sink₂, by simp only [recorded]⟩

end Hook

end Ducktape
