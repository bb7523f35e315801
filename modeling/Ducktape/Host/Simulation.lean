import Ducktape.Host.Drain

/-! # Drains under related observers

A drain depends on its observer only through a `Watch`. When two watches answer alike from related
states (`Watch.Simulates`), the same steps run alike under both: the same verdict, the same stages, the
same additions to the block, and related observers at the end (`runSteps_twins`). Whatever the observer
says, a run changes only the overlays of the registered modules it touched (`Frames`). -/

namespace Ducktape

open Lib

variable {C O Ω Ω' : Type}

/-- Two watches answer alike from related states, and keep them related. -/
structure Watch.Simulates (R : Ω → Ω' → Prop) (W : Watch Ω) (W' : Watch Ω') : Prop where
  plan : ∀ {o o'}, R o o' → ∀ module origin cause input,
    (W.plan o module origin cause input).1 = (W'.plan o' module origin cause input).1 ∧
    R (W.plan o module origin cause input).2 (W'.plan o' module origin cause input).2
  observe : ∀ {o o'}, R o o' → ∀ live q,
    (W.observe live q o).1 = (W'.observe live q o').1 ∧ R (W.observe live q o).2 (W'.observe live q o').2
  recordDispatch : ∀ {o o'}, R o o' → ∀ dispatched,
    R (W.recordDispatch dispatched o) (W'.recordDispatch dispatched o')
  divergence : ∀ {o o'}, R o o' → W.divergence o = W'.divergence o'

/-- What a run may change of the stages: the overlays of the registered modules it touched. -/
structure Frames (H : Host C O) (touched : Finset ModuleId) (σ σ' : Stages C O) : Prop where
  registered : ∀ id ∈ touched, id ∈ H.registry.ids
  frame : ∀ id ∉ touched, σ' id = σ id
  committed : ∀ id, (σ' id).committed = (σ id).committed

namespace Frames

variable {H : Host C O} {touched touched' : Finset ModuleId} {σ σ' σ'' : Stages C O}

theorem refl (σ : Stages C O) : Frames H ∅ σ σ := ⟨fun _ mem => by simp at mem, fun _ _ => rfl, fun _ => rfl⟩

theorem trans (first : Frames H touched σ σ') (rest : Frames H touched' σ' σ'') :
    Frames H (touched ∪ touched') σ σ'' where
  registered id mem := (Finset.mem_union.mp mem).elim (first.registered id) (rest.registered id)
  frame id out := by
    rw [Finset.mem_union, not_or] at out
    exact (rest.frame id out.2).trans (first.frame id out.1)
  committed id := (rest.committed id).trans (first.committed id)

end Frames

/-- Two runs from `σ`, under related observers, came to the same. -/
structure Twins {α τ : Type} (H : Host C O) (R : Ω → Ω' → Prop) (touched : τ → Finset ModuleId)
    (σ : Stages C O) (x : α × Machine C O Ω × τ) (y : α × Machine C O Ω' × τ) : Prop where
  result : x.1 = y.1
  stages : x.2.1.stages = y.2.1.stages
  added : x.2.2 = y.2.2
  related : R x.2.1.observer y.2.1.observer
  frames : Frames H (touched x.2.2) σ x.2.1.stages

/-- Where two like runs ended. -/
theorem Twins.parts {α τ : Type} {H : Host C O} {R : Ω → Ω' → Prop} {touched : τ → Finset ModuleId}
    {σ : Stages C O} {x : α × Machine C O Ω × τ} {y : α × Machine C O Ω' × τ}
    (twins : Twins H R touched σ x y) :
    ∃ result σ' added o o', x = (result, ⟨σ', o⟩, added) ∧ y = (result, ⟨σ', o'⟩, added) ∧ R o o' ∧
      Frames H (touched added) σ σ' := by
  obtain ⟨result, ⟨σ', o⟩, added⟩ := x
  obtain ⟨result', ⟨σ'', o'⟩, added'⟩ := y
  obtain ⟨rfl, rfl, rfl, related, frames⟩ := twins
  exact ⟨_, _, _, o, o', rfl, rfl, related, frames⟩

section Simulation

variable (H : Host C O) {R : Ω → Ω' → Prop} {W : Watch Ω} {W' : Watch Ω'} (clock : BlockClock)
  (sim : Watch.Simulates R W W') {σ : Stages C O} {o : Ω} {o' : Ω'}
include sim

/-- The reads of module code; a query of the module itself never reaches the observer. -/
theorem ctxObserve_twins (me : ModuleId) (live : (q : Ask) → Answer q) (q : Ask) (o : Ω) (o' : Ω')
    (related : R o o') :
    (ctxObserve W me live q o).1 = (ctxObserve W' me live q o').1 ∧
      R (ctxObserve W me live q o).2 (ctxObserve W' me live q o').2 := by
  cases q with
  | root target => exact sim.observe related _ _
  | query target request =>
    simp only [ctxObserve]
    split
    · exact ⟨rfl, related⟩
    · exact sim.observe related _ _

theorem runAt_twins (env : Env) (code : C → O → Guest (O × Except Error Outputs))
    (effects : Outputs → Except Error Effects) (related : R o o') :
    Twins H R id σ (runAt H W env code effects ⟨σ, o⟩) (runAt H W' env code effects ⟨σ, o'⟩) := by
  unfold runAt
  by_cases registered : env.me ∈ H.registry.ids
  · have ran := Prog.run_related
      (ctxObserve_twins sim env.me (H.registry.dispatchAnswer σ env))
      (code (σ env.me).committed (σ env.me).overlay) related
    simp only [if_pos registered, ran.1]
    refine ⟨rfl, rfl, rfl, ran.2, ?_, fun id out => ?_, fun id => ?_⟩
    · simpa using registered
    · exact Function.update_of_ne (by simpa using out) _ _
    · by_cases same : id = env.me
      · subst same
        simp
      · simp [same]
  · simp only [if_neg registered]
    exact ⟨rfl, rfl, rfl, related, .refl σ⟩

theorem runGate_twins (origin : Origin) (target : ModuleId) (related : R o o') :
    (runGate H W clock origin target ⟨σ, o⟩).1 = (runGate H W' clock origin target ⟨σ, o'⟩).1 ∧
      R (runGate H W clock origin target ⟨σ, o⟩).2 (runGate H W' clock origin target ⟨σ, o'⟩).2 := by
  have asks := fun (p : Guest (Except Error Unit)) => Prog.run_related
    (fun q s t (related : R s t) => sim.observe related (H.registry.hostAnswer σ clock.committed) q)
    p related
  cases origin with
  | external | program => exact asks _
  | module | system => exact ⟨rfl, related⟩

theorem executeOne_twins (origin : Origin) (cause : Cause) (msg : Msg) (related : R o o') :
    Twins H R id σ (executeOne H W clock origin cause msg ⟨σ, o⟩)
      (executeOne H W' clock origin cause msg ⟨σ, o'⟩) := by
  obtain ⟨verdict, related⟩ := runGate_twins H clock sim origin msg.target related
  unfold executeOne
  generalize runGate H W clock origin msg.target ⟨σ, o⟩ = gate at verdict related
  generalize runGate H W' clock origin msg.target ⟨σ, o'⟩ = gate' at verdict related
  obtain ⟨passed, o⟩ := gate
  obtain ⟨passed', o'⟩ := gate'
  obtain rfl : passed = passed' := verdict
  cases passed with
  | error e => exact ⟨rfl, rfl, rfl, related, .refl σ⟩
  | ok _ => exact runAt_twins H sim _ _ _ related

theorem acknowledgeOne_twins (source : ModuleId) (cause : Cause) (ack : Ack) (related : R o o') :
    Twins H R id σ (acknowledgeOne H W clock source cause ack ⟨σ, o⟩)
      (acknowledgeOne H W' clock source cause ack ⟨σ, o'⟩) := by
  unfold acknowledgeOne
  exact runAt_twins H sim _ _ _ related

/-- However the observer plans a dispatch, both runs handle it alike. -/
theorem dispatchOne_twins (module : ModuleId) (origin : Origin) (cause : Cause) (input : Input)
    {run : Machine C O Ω → Except Error Effects × Machine C O Ω × Finset ModuleId}
    {run' : Machine C O Ω' → Except Error Effects × Machine C O Ω' × Finset ModuleId}
    (ran : ∀ {o o'}, R o o' → Twins H R id σ (run ⟨σ, o⟩) (run' ⟨σ, o'⟩)) (related : R o o') :
    Twins H R id σ (dispatchOne W module origin cause input run ⟨σ, o⟩)
      (dispatchOne W' module origin cause input run' ⟨σ, o'⟩) := by
  obtain ⟨planned, related⟩ := sim.plan related module origin cause input
  unfold dispatchOne
  generalize W.plan o module origin cause input = plan at planned related
  generalize W'.plan o' module origin cause input = plan' at planned related
  obtain ⟨plan, o⟩ := plan
  obtain ⟨plan', o'⟩ := plan'
  obtain rfl : plan = plan' := planned
  cases plan with
  | diverged reason => exact ⟨rfl, rfl, rfl, related, .refl σ⟩
  | substitute recorded =>
    simp only
    rw [sim.divergence related]
    cases W'.divergence o' <;> exact ⟨rfl, rfl, rfl, related, .refl σ⟩
  | execute =>
    obtain ⟨effects, σ', touched, o, o', done, done', related, frames⟩ := (ran related).parts
    have related := sim.recordDispatch related ⟨module, origin, cause, input, effects⟩
    simp only [done, done']
    rw [sim.divergence related]
    cases W'.divergence (W'.recordDispatch ⟨module, origin, cause, input, effects⟩ o') <;>
      exact ⟨rfl, rfl, rfl, related, frames⟩

/-- The queue runs alike: by induction on the budget, the queue grows alike. -/
theorem drainLoop_twins (budget : Nat) (queue : List QueuedOp) (related : R o o') :
    Twins H R Log.touched σ (drainLoop H W clock budget queue ⟨σ, o⟩)
      (drainLoop H W' clock budget queue ⟨σ, o'⟩) := by
  induction budget generalizing queue σ o o' with
  | zero => cases queue <;> exact ⟨rfl, rfl, rfl, related, .refl σ⟩
  | succ budget ih =>
    cases queue with
    | nil => exact ⟨rfl, rfl, rfl, related, .refl σ⟩
    | cons op queue =>
      obtain ⟨origin, cause, msg⟩ := op
      obtain ⟨effects, σ', touched, o, o', done, done', related, frames⟩ :=
        (dispatchOne_twins H sim msg.target origin cause (.execute msg.payload)
          (executeOne_twins H clock sim (σ := σ) origin cause msg) related).parts
      simp only [drainLoop, done, done']
      cases effects with
      | error e => exact ⟨rfl, rfl, rfl, related, frames⟩
      | ok effects =>
        have rest := ih (queue ++ followUps msg.target cause effects) related (σ := σ')
        refine ⟨rest.result, rest.stages, ?_, rest.related, frames.trans rest.frames⟩
        simp only [rest.added]

theorem runAck_twins (source : ModuleId) (cause : Cause) (ack : Ack) (related : R o o') :
    Twins H R Log.touched σ (runAck H W clock source cause ack ⟨σ, o⟩)
      (runAck H W' clock source cause ack ⟨σ, o'⟩) := by
  obtain ⟨effects, σ', touched, o, o', done, done', related, frames⟩ :=
    (dispatchOne_twins H sim source .system cause (.acknowledge ack)
      (acknowledgeOne_twins H clock sim (σ := σ) source cause ack) related).parts
  simp only [runAck, done, done']
  cases effects <;> exact ⟨rfl, rfl, rfl, related, frames⟩

theorem runStep_twins (step : Step) (related : R o o') :
    Twins H R Log.touched σ (runStep H W clock step ⟨σ, o⟩) (runStep H W' clock step ⟨σ, o'⟩) := by
  cases step with
  | op origin cause msg => exact drainLoop_twins H clock sim _ _ related
  | ack source cause ack => exact runAck_twins H clock sim source cause ack related

/-- **Steps run alike under related observers.** -/
theorem runSteps_twins (steps : List Step) (related : R o o') :
    Twins H R Log.touched σ (runSteps H W clock steps ⟨σ, o⟩) (runSteps H W' clock steps ⟨σ, o'⟩) := by
  induction steps generalizing σ o o' with
  | nil => exact ⟨rfl, rfl, rfl, related, .refl σ⟩
  | cons step steps ih =>
    obtain ⟨verdict, σ', log, o, o', done, done', related, frames⟩ :=
      (runStep_twins H clock sim (σ := σ) step related).parts
    simp only [runSteps, done, done']
    cases verdict with
    | error e => exact ⟨rfl, rfl, rfl, related, frames⟩
    | ok _ =>
      have rest := ih related (σ := σ')
      refine ⟨rest.result, rest.stages, ?_, rest.related, frames.trans rest.frames⟩
      simp only [rest.added]

end Simulation

end Ducktape
