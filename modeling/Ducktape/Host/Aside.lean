import Ducktape.Host.Boundary

/-! # What a replay takes from its host

A replay has every read from its witness, and stands records in for some of its dispatches. Of the
host's stages it uses those of the modules it executes, and nothing of the committed clock. So a host
that differs at modules the witness executes nowhere (`Spares`), or that booted with another committed
clock, stages the same block (`stageBlock_aside`). -/

namespace Ducktape

open Lib Function Observing Finset BlockRun

variable {D A : Finset ModuleId}

/-- Every dispatch of `units` at a module of `A` is stood in for. -/
def Spares (D A : Finset ModuleId) (units : List Observed) : Prop :=
  ∀ unit ∈ units, ∀ d, .dispatch d ∈ unit.trace → d.module ∈ A → d.module ∈ D

namespace Observing

variable {o o' : Observing}

/-- The observer serves a witness with `D` stood in for, and nothing else of `A` dispatched. -/
structure Sparing (D A : Finset ModuleId) (o : Observing) : Prop where
  mode : o.mode = .replay D
  spares : Spares D A o.units

section

variable (sparing : o.Sparing D A)
include sparing

theorem Sparing.of_fixed (mode : o'.fixed.1 = o.fixed.1) (units : o'.fixed.2.2 = o.fixed.2.2) :
    o'.Sparing D A := by
  have replaying : o'.mode = .replay D := mode.trans sparing.mode
  refine ⟨replaying, ?_⟩
  have same : o'.units = o.units := by
    simpa only [fixed, replaying, sparing.mode] using units
  rw [same]
  exact sparing.spares

theorem Sparing.kept (fixed : o'.fixed = o.fixed) : o'.Sparing D A :=
  sparing.of_fixed (congrArg (·.1) fixed) (congrArg (·.2.2) fixed)

theorem Sparing.begun : o.beginUnit.2.Sparing D A :=
  sparing.of_fixed (by rw [o.fixed_beginUnit]) (by rw [o.fixed_beginUnit])

/-- On a replay the live answer plays no part. -/
theorem Sparing.observe_eq (live live' : (q : Ask) → Answer q) (q : Ask) :
    watch.observe live q o = watch.observe live' q o := by
  cases q <;> simp only [watch, observe, observeQuery, observeRoot, sparing.mode]

theorem Sparing.observed (live : (q : Ask) → Answer q) (q : Ask) :
    (watch.observe live q o).2.Sparing D A :=
  sparing.kept (watch_keeps_fixed.observe live q o)

end

/-- A trace entry served is one of the witness. -/
theorem nextTrace_mem {item : Trace} (served : o.nextTrace = (.ok item, o')) :
    ∃ unit ∈ o.units, item ∈ unit.trace := by
  simp only [nextTrace] at served
  split at served
  · cases served
  split at served
  · cases served
  rename_i unit found
  split at served
  · cases served
  · rename_i entry
    cases served
    exact ⟨unit, List.mem_of_getElem? found, List.mem_of_getElem? entry⟩

/-- An executed dispatch that the witness holds nowhere is a departure from it. -/
theorem Sparing.recordDispatch_diverges (sparing : o.Sparing D A) {d : Dispatched}
    (mem : d.module ∈ A) (out : d.module ∉ D) :
    (watch.recordDispatch d o).divergence ≠ none := by
  simp only [watch, recordDispatch, sparing.mode]
  split
  · rename_i recorded o' served
    split
    · rename_i same
      obtain ⟨unit, held, entry⟩ := nextTrace_mem served
      subst same
      exact absurd (sparing.spares unit held recorded entry mem) out
    · exact diverge_ne_none _ _ _
  · exact diverge_ne_none _ _ _
  · exact diverge_ne_none _ _ _

end Observing

/-- The clock of the same block on a host that booted at another instant. -/
abbrev BlockClock.booted (clock : BlockClock) (k : Nat × Nat) : BlockClock := { clock with committed := k }

section Drain

variable {C O : Type} (H : Host C O) (clock : BlockClock) (k' : Nat × Nat)

/-- Two machines that differ at `A` only. -/
structure Aside (A : Finset ModuleId) (s s' : Machine C O Observing) : Prop where
  observer : s'.observer = s.observer
  agree : Agree A s'.stages s.stages

/-- Two runs that end alike, differ at `A` only, and reached nothing of it; `touched` is what a run
adds. -/
structure Alike {α β : Type} (A : Finset ModuleId) (touched : β → Finset ModuleId)
    (r r' : α × Machine C O Observing × β) : Prop where
  value : r'.1 = r.1
  added : r'.2.2 = r.2.2
  aside : Aside A r.2.1 r'.2.1
  outside : ∀ id ∈ touched r.2.2, id ∉ A

variable {s s' s₁ : Machine C O Observing}
  {run : Machine C O Observing → Except Error Effects × Machine C O Observing × Finset ModuleId}

theorem Agree.update {σ' σ : Stages C O} (agree : Agree A σ' σ) (module : ModuleId) (stage : Stage C O) :
    Agree A (update σ' module stage) (update σ module stage) := by
  intro id out
  by_cases same : id = module
  · rw [same, update_self, update_self]
  · rw [update_of_ne same, update_of_ne same]
    exact agree id out

theorem runAt_aside (env : Env) (code : C → O → Guest (O × Except Error Outputs))
    (effects : Outputs → Except Error Effects) (sparing : s.observer.Sparing D A)
    (aside : Aside A s s') (out : env.me ∉ A) :
    Alike A id (runAt H watch env code effects s) (runAt H watch env code effects s') := by
  have stage := aside.agree env.me out
  have served : (code (s.stages env.me).committed (s.stages env.me).overlay).run
        (ctxObserve watch env.me (H.registry.dispatchAnswer s'.stages env)) s.observer
      = (code (s.stages env.me).committed (s.stages env.me).overlay).run
        (ctxObserve watch env.me (H.registry.dispatchAnswer s.stages env)) s.observer := by
    refine Prog.run_congr (fun q o sparing => ?_) (fun q o sparing => ?_)
      _ sparing
    · cases q with
      | root target => exact sparing.observe_eq _ _ _
      | query target request =>
        simp only [ctxObserve]
        split
        · rfl
        · exact sparing.observe_eq _ _ _
    · cases q with
      | root target => exact sparing.observed _ _
      | query target request =>
        simp only [ctxObserve]
        split
        · exact sparing
        · exact sparing.observed _ _
  by_cases registered : env.me ∈ H.registry.ids
  · simp only [runAt, registered, stage, aside.observer, served]
    exact ⟨rfl, rfl, ⟨rfl, aside.agree.update env.me _⟩, fun id mem => mem_singleton.mp mem ▸ out⟩
  · simp only [runAt, registered]
    exact ⟨rfl, rfl, aside, by simp⟩

theorem executeOne_aside (origin : Origin) (cause : Cause) (msg : Msg)
    (sparing : s.observer.Sparing D A) (aside : Aside A s s') (out : msg.target ∉ A) :
    Alike A id (executeOne H watch clock origin cause msg s)
      (executeOne H watch (clock.booted k') origin cause msg s') := by
  have served : (requireSubmitStanding H.wire origin msg.target).run
        (watch.observe (H.registry.hostAnswer s'.stages k')) s'.observer
      = (requireSubmitStanding H.wire origin msg.target).run
        (watch.observe (H.registry.hostAnswer s.stages clock.committed)) s.observer := by
    rw [aside.observer]
    exact Prog.run_congr (fun q o (sparing : o.Sparing D A) => sparing.observe_eq _ _ q)
      (fun q o sparing => sparing.observed _ q) _ sparing
  have gate : runGate H watch (clock.booted k') origin msg.target s'
      = runGate H watch clock origin msg.target s := by
    cases origin with
    | external | program => exact served
    | module | system => exact congrArg (Prod.mk _) aside.observer
  have kept := runGate_keeps H clock watch_keeps_fixed origin msg.target s
  simp only [executeOne, gate]
  split <;> rename_i eq <;> rw [eq] at kept
  · exact ⟨rfl, rfl, ⟨rfl, aside.agree⟩, by simp⟩
  · exact runAt_aside H _ _ _ (sparing.kept kept) ⟨rfl, aside.agree⟩ out

/-- A dispatch ends alike where what it runs does, unless it departs from the witness. -/
theorem dispatchOne_aside (module : ModuleId) (origin : Origin) (cause : Cause) (input : Input)
    {run' : Machine C O Observing → Except Error Effects × Machine C O Observing × Finset ModuleId}
    (alike : module ∉ A → ∀ s s', s.observer.Sparing D A → Aside A s s' → Alike A id (run s) (run' s'))
    (kept : ∀ s, (run s).2.1.observer.fixed = s.observer.fixed) (sparing : s.observer.Sparing D A)
    (aside : Aside A s s')
    (undiverged : (dispatchOne watch module origin cause input run s).2.1.observer.divergence
      = none) : Alike A id (dispatchOne watch module origin cause input run s)
      (dispatchOne watch module origin cause input run' s') := by
  have planned := watch_keeps_fixed.plan s.observer module origin cause input
  have nothing : ∀ id ∈ (∅ : Finset ModuleId), id ∉ A := by simp
  simp only [dispatchOne, aside.observer] at undiverged ⊢
  split at undiverged
  · exact ⟨rfl, rfl, ⟨rfl, aside.agree⟩, nothing⟩
  · split at undiverged <;> exact ⟨rfl, rfl, ⟨rfl, aside.agree⟩, nothing⟩
  rename_i o eq
  rw [eq] at planned
  -- the plan is to execute, so the module is not stood in for
  have executed : module ∉ D := by
    intro mem
    simp only [watch, plan, sparing.mode, mem, not_true_eq_false, if_false] at eq
    split at eq
    · cases eq
    · split at eq <;> cases eq
  have ran := sparing.kept ((kept ⟨s.stages, o⟩).trans planned)
  by_cases mem : module ∈ A
  · exfalso
    refine ran.recordDispatch_diverges (d := ⟨module, origin, cause, input, (run ⟨s.stages, o⟩).1⟩) mem
      executed ?_
    split at undiverged <;> exact undiverged
  · obtain ⟨value, added, after, outside⟩ := alike mem ⟨s.stages, o⟩ ⟨s'.stages, o⟩
      (sparing.kept planned) ⟨rfl, aside.agree⟩
    simp only [value, after.observer]
    split <;> exact ⟨rfl, added, ⟨rfl, after.agree⟩, outside⟩

/-- A dispatch that applies has not departed from the witness. -/
theorem dispatchOne_undiverged {module : ModuleId} {origin : Origin} {cause : Cause} {input : Input}
    {effects : Effects} {touched : Finset ModuleId}
    (applied : dispatchOne watch module origin cause input run s
      = (.ok effects, s₁, touched)) : s₁.observer.divergence = none := by
  simp only [dispatchOne] at applied
  split at applied
  · cases applied
  all_goals
    split at applied
    · cases applied
    rename_i none
    obtain ⟨-, rfl, -⟩ := Prod.mk.injEq .. ▸ applied
    exact none

theorem Alike.eq {α β : Type} {touched : β → Finset ModuleId} {r r' : α × Machine C O Observing × β}
    (alike : Alike A touched r r') : r' = (r.1, r'.2.1, r.2.2) :=
  Prod.ext alike.value (Prod.ext rfl alike.added)

/-- What both runs added before stays in front. -/
theorem Alike.after {α : Type} {r r' : α × Machine C O Observing × Log} {log : Log}
    (alike : Alike A Log.touched r r') (before : ∀ id ∈ log.touched, id ∉ A) :
    Alike A Log.touched (r.1, r.2.1, log ++ r.2.2) (r'.1, r'.2.1, log ++ r'.2.2) :=
  ⟨alike.value, congrArg (log ++ ·) alike.added, alike.aside,
    fun id mem => (mem_union.mp mem).elim (before id) (alike.outside id)⟩

theorem drainLoop_aside (budget : Nat) (queue : List QueuedOp) (sparing : s.observer.Sparing D A)
    (aside : Aside A s s')
    (undiverged : (drainLoop H watch clock budget queue s).2.1.observer.divergence = none) :
    Alike A Log.touched (drainLoop H watch clock budget queue s)
      (drainLoop H watch (clock.booted k') budget queue s') := by
  have idle : ∀ (verdict : Except Error Unit), Alike A Log.touched (verdict, s, Log.empty)
      (verdict, s', Log.empty) := fun _ =>
    ⟨rfl, rfl, aside, by simp⟩
  induction budget generalizing queue s s' with
  | zero => cases queue <;> exact idle _
  | succ budget ih =>
    cases queue with
    | nil => exact idle _
    | cons op queue =>
      obtain ⟨origin, cause, msg⟩ := op
      have first := dispatchOne_aside msg.target origin cause (.execute msg.payload)
        (fun out _ _ sparing aside =>
          executeOne_aside H clock k' origin cause msg sparing aside out)
        (executeOne_keeps H clock watch_keeps_fixed origin cause msg)
        sparing aside
      have kept := dispatchOne_keeps watch_keeps_fixed msg.target origin cause
        (.execute msg.payload) (executeOne_keeps H clock watch_keeps_fixed origin cause msg) s
      simp only [drainLoop] at undiverged ⊢
      split at undiverged <;> rename_i touched eq <;> rw [eq] at first kept
      · have alike := first undiverged
        rw [alike.eq]
        exact ⟨rfl, rfl, alike.aside, alike.outside⟩
      · have alike := first (dispatchOne_undiverged eq)
        rw [alike.eq]
        exact (ih _ (sparing.kept kept) alike.aside undiverged fun _ => ⟨rfl, rfl, alike.aside, by simp⟩).after
          alike.outside

/-- Steps that apply have not departed from the witness. -/
theorem runStep_undiverged {clock : BlockClock} {step : Step} {log : Log}
    (applied : runStep H watch clock step s = (.ok (), s₁, log)) :
    s₁.observer.divergence = none := by
  have drained : ∀ budget queue s,
      (drainLoop H watch clock budget queue s).1 = .ok () → queue ≠ [] ∨ s.observer.divergence = none →
      (drainLoop H watch clock budget queue s).2.1.observer.divergence = none := by
    intro budget queue s
    fun_induction drainLoop H watch clock budget queue s with
    | case1 => exact fun _ start => start.resolve_left fun some => some rfl
    | case2 | case3 => nofun
    | case4 _ _ _ _ _ _ _ _ _ dispatched _ ih =>
      exact fun ok _ => ih ok (.inr (dispatchOne_undiverged dispatched))
  cases step with
  | op origin cause msg =>
    have ended := drained _ _ _ (congrArg Prod.fst applied) (.inl (by simp))
    exact (congrArg (·.2.1.observer.divergence) applied).symm.trans ended
  | ack source cause ack =>
    simp only [runStep, runAck] at applied
    split at applied
    · cases applied
    · rename_i eq
      cases applied
      exact dispatchOne_undiverged eq

theorem runStep_aside (step : Step) (sparing : s.observer.Sparing D A) (aside : Aside A s s')
    (undiverged : (runStep H watch clock step s).2.1.observer.divergence = none) :
    Alike A Log.touched (runStep H watch clock step s)
      (runStep H watch (clock.booted k') step s') := by
  cases step with
  | op origin cause msg =>
    exact drainLoop_aside H clock k' _ _ sparing aside undiverged
  | ack source cause ack =>
    have acknowledged : ∀ s, (acknowledgeOne H watch clock source cause
        ack s).2.1.observer.fixed = s.observer.fixed :=
      fun s => runAt_keeps H watch_keeps_fixed _ _ _ s
    have alike : source ∉ A → ∀ s s', s.observer.Sparing D A → Aside A s s' →
        Alike A id (acknowledgeOne H watch clock source cause ack s)
          (acknowledgeOne H watch (clock.booted k') source cause ack s') :=
      fun out s s' sparing aside => runAt_aside H ⟨clock.height, clock.consensusTime, .system, source, cause⟩
        (fun c overlay => (H.registry.code source).acknowledge c overlay
          ⟨clock.height, clock.consensusTime, .system, source, cause⟩ ack)
        (Outputs.ackEffects source) sparing aside out
    have first := dispatchOne_aside source .system cause (.acknowledge ack) alike acknowledged sparing
      aside
    simp only [runStep, runAck] at undiverged ⊢
    split at undiverged <;> rename_i eq <;> rw [eq] at first
    · have alike := first undiverged
      rw [alike.eq]
      exact ⟨rfl, rfl, alike.aside, alike.outside⟩
    · have alike := first (dispatchOne_undiverged eq)
      rw [alike.eq]
      exact ⟨rfl, rfl, alike.aside, alike.outside⟩

theorem runSteps_aside (steps : List Step) (sparing : s.observer.Sparing D A) (aside : Aside A s s')
    (undiverged : (runSteps H watch clock steps s).2.1.observer.divergence = none) :
    Alike A Log.touched (runSteps H watch clock steps s)
      (runSteps H watch (clock.booted k') steps s') := by
  induction steps generalizing s s' with
  | nil => exact ⟨rfl, rfl, aside, by simp [runSteps]⟩
  | cons step steps ih =>
    have first := runStep_aside H clock k' step sparing aside
    have kept := runStep_keeps H clock watch_keeps_fixed step s
    simp only [runSteps] at undiverged ⊢
    split at undiverged <;> rename_i eq <;> rw [eq] at first kept
    · have alike := first undiverged
      rw [alike.eq]
      exact ⟨rfl, rfl, alike.aside, alike.outside⟩
    · have alike := first (runStep_undiverged H eq)
      rw [alike.eq]
      exact (ih (sparing.kept kept) alike.aside undiverged).after alike.outside

end Drain

section Units

variable {C O : Type} (H : Host C O) (clock : BlockClock) (k' : Nat × Nat)

/-- Two blocks that differ at `A` only, on a replay that executes nothing of it. -/
structure AsideRun (D A : Finset ModuleId) (b b' : BlockRun C O) : Prop where
  observer : b'.observer = b.observer
  agree : Agree A b'.stages b.stages
  touched : b'.touched = b.touched
  accepted : b'.accepted = b.accepted
  replays : b'.replays = b.replays
  outside : ∀ id ∈ b.touched, id ∉ A
  sparing : b.observer.Sparing D A

variable {b b' b₁ : BlockRun C O}

theorem AsideRun.budgetExhausted (run : AsideRun D A b b') : b'.budgetExhausted = b.budgetExhausted := by
  rw [BlockRun.budgetExhausted, BlockRun.budgetExhausted, run.replays]

theorem checkWitness_eq_ok : checkWitness b = .ok () ↔ b.observer.divergence = none := by
  simp only [checkWitness]
  cases b.observer.divergence <;> simp

/-- Whatever the one run returns the other returns too, in a block beside it. -/
def Beside (D A : Finset ModuleId) {α : Type} (x y : Except SubmitError (α × BlockRun C O)) : Prop :=
  ∀ v b, x = .ok (v, b) → ∃ b', y = .ok (v, b') ∧ AsideRun D A b b'

section

variable {α : Type} (run : AsideRun D A b b')
include run

theorem AsideRun.stay (v : α) : Beside D A (.ok (v, b)) (.ok (v, b')) := by
  rintro _ _ ⟨⟩
  exact ⟨b', rfl, run⟩

section

variable (steps : List Step) {o : Observing} (sparing : o.Sparing D A)
  {r r' : Except Error Unit × Machine C O Observing × Log}
  (eq : runSteps H watch clock steps ⟨b.stages, o⟩ = r)
  (eq' : runSteps H watch (clock.booted k') steps ⟨b'.stages, o⟩ = r')
include sparing eq eq'

/-- Steps of both blocks, under the same observer, that keep to the witness. -/
theorem AsideRun.kept (checked : checkWitness (b.ran r.2.1 r.2.2) = .ok ()) :
    r' = (r.1, r'.2.1, r.2.2) ∧ checkWitness (b'.ran r'.2.1 r'.2.2) = .ok () ∧
      AsideRun D A (b.ran r.2.1 r.2.2) (b'.ran r'.2.1 r.2.2) := by
  subst eq eq'
  rw [checkWitness_eq_ok] at checked ⊢
  have beside : Aside A ⟨b.stages, o⟩ ⟨b'.stages, o⟩ := ⟨rfl, run.agree⟩
  have alike := runSteps_aside H clock k' steps sparing beside checked
  refine ⟨alike.eq, (congrArg _ alike.aside.observer).trans checked, alike.aside.observer, alike.aside.agree,
    congrArg (· ∪ _) run.touched, run.accepted, run.replays,
    fun id mem => (mem_union.mp mem).elim (run.outside id) (alike.outside id),
    sparing.kept (runSteps_keeps H clock watch_keeps_fixed steps ⟨b.stages, o⟩)⟩

/-- Where the steps keep to the witness both blocks go on alike. -/
theorem AsideRun.ran {x x' : Except SubmitError (α × BlockRun C O)}
    (rest : r' = (r.1, r'.2.1, r.2.2) → AsideRun D A (b.ran r.2.1 r.2.2) (b'.ran r'.2.1 r.2.2) →
      Beside D A x x') :
    Beside D A (do checkWitness (b.ran r.2.1 r.2.2); x) (do checkWitness (b'.ran r'.2.1 r'.2.2); x') := by
  intro v b₁ ended
  obtain ⟨_, checked, ended⟩ := bind_eq_ok.mp ended
  obtain ⟨same, checked', after⟩ := run.kept H clock k' steps sparing eq eq' checked
  obtain ⟨b₁', ended', after'⟩ := rest same after v b₁ ended
  exact ⟨b₁', bind_eq_ok.mpr ⟨(), checked', ended'⟩, after'⟩

end

theorem replayAccepted_aside (accepted : List AcceptedUnit) :
    Beside D A (replayAccepted H clock accepted b) (replayAccepted H (clock.booted k') accepted b') := by
  induction accepted generalizing b b' with
  | nil => exact run.stay []
  | cons unit accepted ih =>
    have resumed : (b.observer.resume unit.entry).Sparing D A :=
      run.sparing.kept (b.observer.fixed_resume unit.entry)
    simp only [replayAccepted, run.observer]
    refine run.ran H clock k' unit.steps resumed rfl rfl fun same run => ?_
    rw [same]
    cases (runSteps H watch clock unit.steps _).1 with
    | error e => rintro _ _ ⟨⟩
    | ok _ =>
      intro v b₁ ended
      obtain ⟨⟨units, b₂⟩, replayed, ended⟩ := bind_eq_ok.mp ended
      cases ended
      obtain ⟨b₂', replayed', after⟩ := ih run _ _ replayed
      exact ⟨b₂', bind_eq_ok.mpr ⟨_, replayed', rfl⟩, after⟩

theorem isolate_aside {next next' : BlockRun C O → Except SubmitError (α × BlockRun C O)}
    (rest : ∀ b b', AsideRun D A b b' → Beside D A (next b) (next' b')) :
    Beside D A (isolate H clock b >>= next) (isolate H (clock.booted k') b' >>= next') := by
  have rolled : AsideRun D A { b with stages := abortAll H b.touched b.stages, touched := ∅ }
      { b' with stages := abortAll H b'.touched b'.stages, touched := ∅ } := by
    refine ⟨run.observer, fun id out => ?_, rfl, run.accepted, run.replays, by simp, run.sparing⟩
    simp only [abortAll, run.touched, run.agree id out]
  intro v b₁ ended
  obtain ⟨_, isolated, ended⟩ := bind_eq_ok.mp ended
  obtain ⟨⟨units, b₂⟩, replayed, isolated⟩ := bind_eq_ok.mp isolated
  cases isolated
  obtain ⟨b₂', replayed', after⟩ := replayAccepted_aside H clock k' rolled b.accepted _ _ replayed
  rw [← run.accepted] at replayed'
  have counted : AsideRun D A { b₂ with accepted := units, replays := b₂.replays + 1 }
      { b₂' with accepted := units, replays := b₂'.replays + 1 } :=
    ⟨after.observer, after.agree, after.touched, rfl, congrArg (· + 1) after.replays, after.outside,
      after.sparing⟩
  obtain ⟨b₁', ended', after'⟩ := rest _ _ counted v b₁ ended
  exact ⟨b₁', bind_eq_ok.mpr ⟨_, bind_eq_ok.mpr ⟨_, replayed', rfl⟩, ended'⟩, after'⟩

theorem runUnit_aside (steps : List Step) :
    Beside D A (runUnit H clock steps b) (runUnit H (clock.booted k') steps b') := by
  simp only [runUnit, run.budgetExhausted, run.observer]
  split
  · exact run.stay _
  refine run.ran H clock k' steps run.sparing.begun rfl rfl fun same run => ?_
  rw [same]
  cases (runSteps H watch clock steps _).1 with
  | ok _ => exact run.stay _
  | error reason =>
    dsimp only
    split
    · exact isolate_aside H clock k' run fun b b' run => run.stay _
    · exact run.stay _

theorem extendUnit_aside (unit : AcceptedUnit) (steps : List Step) :
    Beside D A (extendUnit H clock unit steps b) (extendUnit H (clock.booted k') unit steps b') := by
  simp only [extendUnit, run.observer]
  refine run.ran H clock k' steps run.sparing rfl rfl fun same run => ?_
  rw [same]
  cases (runSteps H watch clock steps _).1 with
  | ok _ => exact run.stay _
  | error reason => exact isolate_aside H clock k' run fun b b' run => run.stay _

theorem decideAuthority_aside (call : PreparedCall) :
    Beside D A (decideAuthority H clock call b) (decideAuthority H (clock.booted k') call b') := by
  have served : (callAuthority H.wire call).run
        (watch.observe (H.registry.hostAnswer b'.stages k')) b.observer.beginUnit.2
      = (callAuthority H.wire call).run
        (watch.observe (H.registry.hostAnswer b.stages clock.committed)) b.observer.beginUnit.2 :=
    Prog.run_congr (fun q o (sparing : o.Sparing D A) => sparing.observe_eq _ _ q)
      (fun q o sparing => sparing.observed _ q) _ run.sparing.begun
  have kept := Prog.run_keeps
    (watch.observe (H.registry.hostAnswer b.stages clock.committed)) fixed
    (fun q o => watch_keeps_fixed.observe _ q o) (callAuthority H.wire call)
    b.observer.beginUnit.2
  simp only [decideAuthority, run.budgetExhausted, run.observer, served]
  split
  · exact run.stay _
  intro verdict b₁ ended
  obtain ⟨_, checked, ended⟩ := bind_eq_ok.mp ended
  rw [checkWitness_eq_ok] at checked
  split at ended <;> cases ended
  exact ⟨_, bind_eq_ok.mpr ⟨(), checkWitness_eq_ok.mpr checked, rfl⟩,
    ⟨rfl, run.agree, run.touched, run.accepted, run.replays, run.outside, run.sparing.begun.kept kept⟩⟩

end

/-- A block over a host that differs at `A` follows one that runs to its end. -/
theorem hostUnits_aside (D A : Finset ModuleId) :
    (hostUnits H clock).Related (hostUnits H (clock.booted k')) Carries (AsideRun D A)
      (fun _ => AsideRun D A) where
  runUnit steps b b' run verdict b₁ ended := by
    obtain ⟨b₁', ended', after⟩ := runUnit_aside H clock k' run steps verdict b₁ ended
    exact ⟨b₁', ended', by cases verdict <;> exact after⟩
  extendUnit unit steps b b' run extended b₁ ended := by
    obtain ⟨b₁', ended', after⟩ := extendUnit_aside H clock k' run unit steps extended b₁ ended
    exact ⟨b₁', ended', by cases extended <;> exact after⟩
  authority call b b' run := decideAuthority_aside H clock k' run call
  accept unit slot resolved record b b' run _ _ ended := by
    cases ended
    exact ⟨_, rfl, run.observer, run.agree, run.touched, congrArg (· ++ _) run.accepted, run.replays,
      run.outside, run.sparing⟩

theorem drainInjection_aside (prepared : PreparedWork) (run : AsideRun D A b b') {log : Log}
    (ended : drainInjection H clock prepared b = .ok (b₁, log)) :
    ∃ b₁', drainInjection H (clock.booted k') prepared b' = .ok (b₁', log) ∧
      AsideRun D A b₁ b₁' := by
  simp only [drainInjection, drainQueue_injection, run.observer] at ended ⊢
  obtain ⟨_, checked, ended⟩ := bind_eq_ok.mp ended
  obtain ⟨same, checked', after⟩ := run.kept H clock k' _ run.sparing.begun rfl rfl checked
  rw [same] at checked' ⊢
  split at ended <;> rename_i verdict <;> cases ended
  exact ⟨_, bind_eq_ok.mpr ⟨(), checked', by rw [verdict]⟩, after⟩

/-- **A replay stages the same block** over a host that differs at modules it does not execute, and
under any committed clock. -/
theorem stageBlock_aside (ops : List BlockOp) (prepared : PreparedWork) {witness : Witness}
    (spares : Spares D A witness.units) (admission : Admission) {committed committed' : ModuleId → C}
    (agree : ∀ id ∉ A, committed' id = committed id) {tables : Tables} {log : Log} {w : Witness}
    (staged : stageBlock H clock ops prepared (.journaled witness D) admission
      committed = .ok (tables, b, log, w)) :
    ∃ b', stageBlock H (clock.booted k') ops prepared (.journaled witness D) admission
        committed' = .ok (tables, b', log, w) ∧ AsideRun D A b b' := by
  obtain ⟨⟨tables₁, b₁⟩, units, staged⟩ := bind_eq_ok.mp staged
  obtain ⟨⟨b₂, log₂⟩, injected, staged⟩ := bind_eq_ok.mp staged
  have start : AsideRun D A
      ⟨H.registry.boundary committed, .new (.journaled witness D), ∅, [], 0⟩
      ⟨H.registry.boundary committed', .new (.journaled witness D), ∅, [], 0⟩ := by
    refine ⟨rfl, fun id out => ?_, rfl, rfl, rfl, by simp, rfl, spares⟩
    simp only [Registry.boundary, agree id out]
  obtain ⟨b₁', units', run⟩ := runUnits_related Carries.composes (hostUnits_aside H clock k' D A) H.wire
    admission (fun _ _ _ _ _ _ _ ended => nomatch ended) ops prepared _ _ start tables₁ b₁ units
  obtain ⟨b₂', injected', after⟩ := drainInjection_aside H clock k' prepared run injected
  dsimp only at staged
  split at staged
  · cases staged
  rename_i witnessed
  cases staged
  refine ⟨b₂', bind_eq_ok.mpr ⟨_, units', bind_eq_ok.mpr ⟨_, injected', ?_⟩⟩, after⟩
  dsimp only
  rw [after.observer, witnessed, after.accepted]

end Units

end Ducktape
