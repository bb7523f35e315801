import Ducktape.Host.Block
import Ducktape.Host.Simulation

/-! # An observer follows a direct run

A drain under `Watch.direct` fixes a unit's behaviour: its result, the stages it leaves, what it adds
to the block, and its trace. This file shows that the same drain under the host's observer does the
same whenever the observer can take that trace (`Observing.Fits`): recording it on the live path,
letting it pass on a live re-run, or serving it on a replay, where the stages of the substituted
modules stay as they are.

* `Observing.advance t` is the observer after the trace `t`;
* `Agree D σ' σ` says two stages agree outside the modules `D`, `keep D σ' σ` takes `D` from `σ'`;
* `Runs` packages what a direct run does and that the host follows it; `runSteps_runs` proves it for
  the steps of a unit;
* `runSteps_keeps` is for a drain whose observer cannot follow: whatever happens, it opens no unit and
  leaves the witness of a replay as it is. -/

namespace Ducktape

open Lib Function List Observing Finset Watch

namespace Observing

/-- The modules whose dispatches are stood in for. -/
def substituted (o : Observing) : Finset ModuleId :=
  match o.mode with
  | .live => ∅
  | .replay substitute => substitute

/-- The observer after a trace it took. -/
def advance (t : List Trace) (o : Observing) : Observing :=
  match o.mode, o.opened with
  | .live, .unit entry _ => { o with units := o.units.modify entry fun unit => ⟨unit.trace ++ t⟩ }
  | .replay _, .unit entry next => { o with opened := .unit entry (next + t.length) }
  | _, .unrecorded => o

/-- The observer can take a trace: live it always can, on a replay the trace lies next in the open
unit's record. -/
def Fits (t : List Trace) (o : Observing) : Prop :=
  o.divergence = none ∧
    match o.mode, o.opened with
    | .live, .unrecorded => True
    | .live, .unit entry _ => entry < o.units.length
    | .replay _, .unit entry next => ∃ unit, o.units[entry]? = some unit ∧ t <+: unit.trace.drop next
    | .replay _, .unrecorded => t = []

variable {o : Observing} {t t₁ t₂ : List Trace}

@[simp] theorem mode_advance : (o.advance t).mode = o.mode := by
  unfold advance; split <;> rfl

@[simp] theorem divergence_advance : (o.advance t).divergence = o.divergence := by
  unfold advance; split <;> rfl

@[simp] theorem attempted_advance : (o.advance t).attempted = o.attempted := by
  unfold advance; split <;> rfl

@[simp] theorem substituted_advance : (o.advance t).substituted = o.substituted := by
  simp only [substituted, mode_advance]

@[simp] theorem advance_nil : o.advance [] = o := by
  obtain ⟨mode, units, attempted, opened, divergence⟩ := o
  cases mode <;> cases opened <;> simp only [advance, append_nil, length_nil, Nat.add_zero]
  exact congrArg (mk _ · _ _ _) (modify_id _ units)

theorem advance_append : o.advance (t₁ ++ t₂) = (o.advance t₁).advance t₂ := by
  obtain ⟨mode, units, attempted, opened, divergence⟩ := o
  cases mode <;> cases opened <;> simp only [advance]
  · rw [modify_modify_eq]
    simp only [Function.comp_def, append_assoc]
  · simp only [length_append, Nat.add_assoc]

theorem fits_append : o.Fits (t₁ ++ t₂) ↔ o.Fits t₁ ∧ (o.advance t₁).Fits t₂ := by
  obtain ⟨mode, units, attempted, opened, divergence⟩ := o
  cases mode <;> cases opened <;> simp only [Fits, advance, length_modify]
  · tauto
  · tauto
  · simp only [append_eq_nil_iff]
    tauto
  -- on a replay the two halves lie next to each other in the open record
  rename_i next
  constructor
  · rintro ⟨none, unit, found, rest, ahead⟩
    have dropped : unit.trace.drop next = t₁ ++ (t₂ ++ rest) := by rw [← ahead, append_assoc]
    refine ⟨⟨none, unit, found, t₂ ++ rest, dropped.symm⟩, none, unit, found, rest, ?_⟩
    rw [← drop_drop, dropped, drop_left]
  · rintro ⟨⟨none, unit, found, rest, ahead⟩, -, unit', found', rest', ahead'⟩
    obtain rfl : unit = unit' := Option.some.inj (found.symm.trans found')
    rw [← drop_drop, ← ahead, drop_left] at ahead'
    exact ⟨none, unit, found, rest', by rw [← ahead, ← ahead', append_assoc]⟩

theorem Fits.none (fits : o.Fits t) : o.divergence = none := fits.1

/-- The head of a served trace is what `next_trace` returns. -/
theorem nextTrace_of_fits {substitute : Finset ModuleId} {item : Trace}
    (replay : o.mode = .replay substitute) (fits : o.Fits [item]) :
    o.nextTrace = (.ok item, o.advance [item]) := by
  obtain ⟨mode, units, attempted, opened, divergence⟩ := o
  subst replay
  cases opened with
  | unrecorded => exact absurd fits.2 (by simp)
  | unit entry next =>
    obtain ⟨-, unit, found, rest, ahead⟩ := fits
    have at_next : unit.trace[next]? = some item := by
      have head : (unit.trace.drop next)[0]? = some item := by rw [← ahead]; rfl
      simpa using head
    simp only [nextTrace, found, at_next, advance, length_singleton]

/-- A live observer records; one that runs unrecorded stays as it is. -/
theorem push_eq_advance (live : o.mode = .live) (item : Trace) : o.push item = o.advance [item] := by
  obtain ⟨mode, units, attempted, opened, divergence⟩ := o
  subst live
  cases opened <;> rfl

/-- A read the observer can take is answered as recorded; live, that is the live answer. -/
theorem observe_of_fits (live live' : (q : Ask) → Answer q) (q : Ask)
    (same : o.mode = .live → live' q = live q) (fits : o.Fits [.read (.ofAnswer q (live q))]) :
    observe live' q o = (live q, o.advance [.read (.ofAnswer q (live q))]) := by
  cases mode : o.mode with
  | live =>
    cases q <;>
      simp only [observe, observeQuery, observeRoot, mode, same mode, push_eq_advance mode, Read.ofAnswer]
  | replay substitute =>
    have next := nextTrace_of_fits mode fits
    cases q with
    | query | root =>
      simp only [Read.ofAnswer] at next ⊢
      simp only [observe, observeQuery, observeRoot, mode, nextRead, next, and_self, if_true]

variable {dispatched : Dispatched}

/-- A dispatch the observer can take is recorded, or found as recorded. -/
theorem recordDispatch_of_fits (fits : o.Fits [.dispatch dispatched]) :
    recordDispatch dispatched o = o.advance [.dispatch dispatched] := by
  cases mode : o.mode with
  | live => simp only [recordDispatch, mode, push_eq_advance mode]
  | replay substitute =>
    simp only [recordDispatch, mode, nextTrace_of_fits mode fits, if_true]

/-- A module that is not substituted is run. -/
theorem plan_execute {module : ModuleId} (out : module ∉ o.substituted) (origin : Origin)
    (cause : Cause) (input : Input) : o.plan module origin cause input = (.execute, o) := by
  cases mode : o.mode with
  | live => simp only [plan, mode]
  | replay substitute =>
    simp only [substituted, mode] at out
    simp only [plan, mode, out, not_false_iff, if_true]

/-- A substituted module's dispatch is stood in for by its record, its reads passed over. -/
theorem plan_substitute {reads : List Trace} (sub : dispatched.module ∈ o.substituted)
    (areReads : ∀ x ∈ reads, x.isRead) (fits : o.Fits (reads ++ [.dispatch dispatched])) :
    o.plan dispatched.module dispatched.origin dispatched.cause dispatched.input
      = (.substitute dispatched, o.advance (reads ++ [.dispatch dispatched])) := by
  obtain ⟨mode, units, attempted, opened, divergence⟩ := o
  cases mode with
  | live => simp [substituted] at sub
  | replay substitute =>
    simp only [substituted] at sub
    cases opened with
    | unrecorded => exact absurd fits.2 (by simp)
    | unit entry next =>
      obtain ⟨-, unit, found, rest, ahead⟩ := fits
      have skipped : (unit.trace.drop next).takeWhile Trace.isRead = reads := by
        rw [← ahead, append_assoc, takeWhile_append_of_pos areReads]
        simp [Trace.isRead]
      have at_reached : unit.trace[next + reads.length]? = some (.dispatch dispatched) := by
        have entry : (unit.trace.drop next)[reads.length]? = some (.dispatch dispatched) := by
          rw [← ahead]
          simp
        simpa using entry
      have length : next + (reads ++ [Trace.dispatch dispatched]).length
          = next + reads.length + 1 := by
        simp only [length_append, length_singleton]; omega
      simp only [plan, sub, not_true_eq_false, if_false, nextDispatch, found, skipped,
        at_reached, and_self, if_true, advance, length]

end Observing

/-! ## Stages outside the substituted modules -/

section Stages

variable {C O : Type} {D : Finset ModuleId} {σ σ' σ₁ σ₂ : Stages C O}

/-- The stages agree outside `D`. -/
def Agree (D : Finset ModuleId) (σ' σ : Stages C O) : Prop := ∀ id ∉ D, σ' id = σ id

/-- The stages of `σ`, except that the modules of `D` stay as they are in `σ'`. -/
def keep (D : Finset ModuleId) (σ' σ : Stages C O) : Stages C O :=
  fun id => if id ∈ D then σ' id else σ id

theorem Agree.refl (D : Finset ModuleId) (σ : Stages C O) : Agree D σ σ := fun _ _ => rfl

theorem agree_keep (D : Finset ModuleId) (σ' σ : Stages C O) : Agree D (keep D σ' σ) σ :=
  fun _ out => if_neg out

theorem Agree.eq (agree : Agree ∅ σ' σ) : σ' = σ := funext fun id => agree id (notMem_empty id)

/-- What agrees already needs no keeping. -/
theorem Agree.keep_eq (agree : Agree D σ' σ) : keep D σ' σ = σ' := by
  funext id
  by_cases sub : id ∈ D
  · exact if_pos sub
  · exact (if_neg sub).trans (agree id sub).symm

@[simp] theorem keep_empty (σ' σ : Stages C O) : keep ∅ σ' σ = σ :=
  funext fun id => if_neg (notMem_empty id)

/-- Keeping twice keeps the first. -/
theorem keep_keep : keep D (keep D σ' σ₁) σ₂ = keep D σ' σ₂ := by
  funext id
  by_cases sub : id ∈ D <;> simp [keep, sub]

/-- A run that only changed a module of `D` changed nothing that is kept. -/
theorem Agree.of_frame (agree : Agree D σ' σ) (frame : ∀ id ∉ D, σ₁ id = σ id) : Agree D σ' σ₁ :=
  fun id out => (agree id out).trans (frame id out).symm

end Stages

/-! ## Guests -/

/-- The reads a log of exchanges records, those in `seen` only. -/
def readsOf (seen : Ask → Bool) (log : List ((q : Ask) × Answer q)) : List Trace :=
  (log.filter fun e => seen e.1).map fun e => .read (.ofAnswer e.1 e.2)

theorem readsOf_isRead (seen : Ask → Bool) (log : List ((q : Ask) × Answer q)) :
    ∀ x ∈ readsOf seen log, x.isRead := by
  intro x mem
  obtain ⟨e, -, rfl⟩ := mem_map.mp mem
  rfl

variable {seen : Ask → Bool}

theorem readsOf_cons_seen {q : Ask} (yes : seen q = true) (a : Answer q)
    (log : List ((q : Ask) × Answer q)) :
    readsOf seen (⟨q, a⟩ :: log) = .read (.ofAnswer q a) :: readsOf seen log := by
  simp only [readsOf, List.filter_cons, yes, if_true, List.map_cons]

theorem readsOf_cons_unseen {q : Ask} (no : seen q = false) (a : Answer q)
    (log : List ((q : Ask) × Answer q)) : readsOf seen (⟨q, a⟩ :: log) = readsOf seen log := by
  simp [readsOf, no]

variable {o : Observing}

section Guests

variable {α : Type} (seen : Ask → Bool) (live live' : (q : Ask) → Answer q) (p : Guest α)

/-- A guest under the bare recorder: its oracle run, with the seen reads appended. -/
theorem run_direct (h : (q : Ask) → List Trace → Answer q × List Trace)
    (eq : ∀ q τ, h q τ = if seen q then direct.observe live q τ else (live q, τ))
    (τ : List Trace) : p.run h τ = (p.eval live, τ ++ readsOf seen (p.log live)) := by
  have tracks := Prog.run_tracks h live
    (fun t s => s ++ readsOf seen t = τ ++ readsOf seen (p.log live)) ?_ p [] τ (by simp)
  · exact Prod.ext tracks.1 (by simpa [readsOf] using tracks.2)
  · intro q rest s ahead
    rw [eq]
    cases yes : seen q with
    | true =>
      rw [readsOf_cons_seen yes] at ahead
      exact ⟨rfl, by simpa [direct] using ahead⟩
    | false =>
      rw [readsOf_cons_unseen yes] at ahead
      exact ⟨rfl, ahead⟩

/-- A guest under the host's observer: its oracle run again, if the observer can take the reads. -/
theorem run_observed (h : (q : Ask) → Observing → Answer q × Observing)
    (eq : ∀ q o', h q o' = if seen q then observe live' q o' else (live q, o'))
    (same : o.mode = .live → ∀ q, live' q = live q) (fits : o.Fits (readsOf seen (p.log live))) :
    p.run h o = (p.eval live, o.advance (readsOf seen (p.log live))) := by
  have tracks := Prog.run_tracks h live
    (fun t s => s.mode = o.mode ∧ s.Fits (readsOf seen t) ∧
      s.advance (readsOf seen t) = o.advance (readsOf seen (p.log live)))
    ?_ p [] o (by simpa using fits)
  · obtain ⟨result, -, -, ended⟩ := tracks
    exact Prod.ext result (by simpa [readsOf] using ended)
  · rintro q rest s ⟨mode, fits, ended⟩
    rw [eq]
    cases yes : seen q with
    | true =>
      rw [readsOf_cons_seen yes] at fits ended
      rw [← singleton_append, fits_append] at fits
      rw [← singleton_append, advance_append] at ended
      have observed := observe_of_fits live live' q (fun l => same (mode ▸ l) q) fits.1
      rw [if_pos rfl, observed]
      exact ⟨rfl, by rw [mode_advance, mode], fits.2, ended⟩
    | false =>
      rw [readsOf_cons_unseen yes] at fits ended
      exact ⟨rfl, mode, fits, ended⟩

end Guests

/-! ## One dispatch -/

section Dispatch

variable {C O : Type} (H : Host C O) (clock : BlockClock)

/-- What a direct run of one op does from `σ`, and that the host does the same at any observer that
can take its reads and does not substitute `module`. -/
structure OpRuns (module : ModuleId)
    (direct : Machine C O (List Trace) →
      Except Error Effects × Machine C O (List Trace) × Finset ModuleId)
    (host : Machine C O Observing → Except Error Effects × Machine C O Observing × Finset ModuleId)
    (σ : Stages C O) (result : Except Error Effects) (σ₁ : Stages C O) (touched : Finset ModuleId)
    (reads : List Trace) : Prop where
  direct : ∀ τ, direct ⟨σ, τ⟩ = (result, ⟨σ₁, τ ++ reads⟩, touched)
  areReads : ∀ x ∈ reads, x.isRead
  touched_sub : touched ⊆ {module}
  registered : ∀ id ∈ touched, id ∈ H.registry.ids
  frame : ∀ id ∉ touched, σ₁ id = σ id
  committed : ∀ id, (σ₁ id).committed = (σ id).committed
  follows : ∀ σ' o, module ∉ o.substituted → Agree o.substituted σ' σ → o.Fits reads →
    host ⟨σ', o⟩ = (result, ⟨keep o.substituted σ' σ₁, o.advance reads⟩, touched)

/-- The reads of module code the observer sees: all but queries of the module itself. -/
def notSelf (me : ModuleId) : Ask → Bool
  | .query target _ => target ≠ me
  | .root _ => true

theorem ctxObserve_eq {Ω : Type} (W : Watch Ω) (σ σ' : Stages C O) (env : Env) (q : Ask) (o : Ω) :
    ctxObserve W env.me (H.registry.dispatchAnswer σ' env) q o
      = if notSelf env.me q then W.observe (H.registry.dispatchAnswer σ' env) q o
        else (H.registry.dispatchAnswer σ env q, o) := by
  cases q with
  | root target => rfl
  | query target request =>
    by_cases self : target = env.me <;> simp [ctxObserve, notSelf, self, Registry.dispatchAnswer]

/-- In live mode the stages agree everywhere. -/
theorem Agree.eq_of_live {σ σ' : Stages C O} (agree : Agree o.substituted σ' σ)
    (live : o.mode = .live) : σ' = σ := by
  simp only [substituted, live] at agree
  exact agree.eq

/-- Running module code at its module. -/
theorem runAt_runs (env : Env) (code : C → O → Guest (O × Except Error Outputs))
    (effects : Outputs → Except Error Effects) (σ : Stages C O) :
    ∃ result σ₁ touched reads,
      OpRuns H env.me (runAt H direct env code effects)
        (runAt H watch env code effects) σ result σ₁ touched reads := by
  by_cases registered : env.me ∈ H.registry.ids
  swap
  · refine ⟨.error (.unknownModule env.me), σ, ∅, [], ?_⟩
    constructor
    case direct => intro τ; simp only [runAt, if_neg registered, append_nil]
    case follows =>
      intro σ' o _ agree _
      simp only [runAt, if_neg registered, agree.keep_eq, advance_nil]
    all_goals simp
  let answer := H.registry.dispatchAnswer σ env
  let guest := code (σ env.me).committed (σ env.me).overlay
  let ran := guest.eval answer
  refine ⟨ran.2 >>= effects, update σ env.me ⟨(σ env.me).committed, ran.1⟩, {env.me},
    readsOf (notSelf env.me) (guest.log answer), ?_⟩
  constructor
  case direct =>
    intro τ
    have run := run_direct (notSelf env.me) answer guest
      (ctxObserve direct env.me answer) (ctxObserve_eq H direct σ σ env) τ
    simp only [runAt, if_pos registered]
    rw [run]
  case areReads => exact readsOf_isRead _ _
  case touched_sub => exact Finset.Subset.refl _
  case registered => intro id mem; rw [Finset.mem_singleton.mp mem]; exact registered
  case frame =>
    intro id out
    exact update_of_ne (fun same => out (Finset.mem_singleton.mpr same)) _ _
  case committed =>
    intro id
    by_cases same : id = env.me
    · subst same; rw [update_self]
    · rw [update_of_ne same]
  case follows =>
    intro σ' o out agree fits
    have here : σ' env.me = σ env.me := agree _ out
    have run := run_observed (notSelf env.me) answer (H.registry.dispatchAnswer σ' env) guest
      (ctxObserve watch env.me (H.registry.dispatchAnswer σ' env))
      (ctxObserve_eq H watch σ σ' env)
      (fun live q => by rw [agree.eq_of_live live]) fits
    simp only [runAt, if_pos registered, here]
    rw [run]
    congr 3
    funext id
    by_cases same : id = env.me
    · subst same; simp [keep, out, ran]
    rw [update_of_ne same]
    by_cases sub : id ∈ o.substituted
    · simp [keep, sub]
    · simp [keep, update_of_ne same, agree id sub]

/-- A read the host makes for itself, under the bare recorder and under its observer. -/
theorem hostGuest_runs {α : Type} (p : Guest α) (σ : Stages C O) :
    ∃ result reads, (∀ x ∈ reads, x.isRead) ∧
      (∀ τ, p.run (direct.observe (H.registry.hostAnswer σ clock.committed)) τ
        = (result, τ ++ reads)) ∧
      ∀ (σ' : Stages C O) o, Agree o.substituted σ' σ → o.Fits reads →
        p.run (watch.observe (H.registry.hostAnswer σ' clock.committed)) o
          = (result, o.advance reads) := by
  let answer := H.registry.hostAnswer σ clock.committed
  refine ⟨p.eval answer, readsOf (fun _ => true) (p.log answer), readsOf_isRead _ _, ?_, ?_⟩
  · exact fun τ => run_direct (fun _ => true) answer p _ (fun _ _ => rfl) τ
  · intro σ' o agree fits
    exact run_observed (fun _ => true) answer (H.registry.hostAnswer σ' clock.committed) p _
      (fun _ _ => rfl) (fun live q => by rw [agree.eq_of_live live]) fits

variable (source : ModuleId) (origin : Origin)

/-- The gate under the bare recorder and under the host's observer. -/
theorem runGate_runs (target : ModuleId) (σ : Stages C O) :
    ∃ result reads, (∀ x ∈ reads, x.isRead) ∧
      (∀ τ, runGate H direct clock origin target ⟨σ, τ⟩ = (result, τ ++ reads)) ∧
      ∀ σ' o, Agree o.substituted σ' σ → o.Fits reads →
        runGate H watch clock origin target ⟨σ', o⟩ = (result, o.advance reads) := by
  -- only external and program origins are held to the policy
  have free : ∃ (result : Except Error Unit) (reads : List Trace), (∀ x ∈ reads, x.isRead) ∧
      (∀ τ : List Trace, ((.ok (), τ) : Except Error Unit × List Trace) = (result, τ ++ reads)) ∧
      ∀ (σ' : Stages C O) o, Agree o.substituted σ' σ → o.Fits reads →
        ((.ok (), o) : Except Error Unit × Observing) = (result, o.advance reads) :=
    ⟨.ok (), [], by simp, by simp, by simp⟩
  cases origin with
  | external | program => exact hostGuest_runs H clock _ σ
  | module | system => exact free

variable (cause : Cause)

/-- Running one op at its target. -/
theorem executeOne_runs (msg : Msg) (σ : Stages C O) :
    ∃ result σ₁ touched reads,
      OpRuns H msg.target (executeOne H direct clock origin cause msg)
        (executeOne H watch clock origin cause msg) σ result σ₁ touched reads := by
  obtain ⟨gate, gateReads, gateIsRead, gateDirect, gateFollows⟩ :=
    runGate_runs H clock origin msg.target σ
  cases gate with
  | error e =>
    refine ⟨.error e, σ, ∅, gateReads, ?_⟩
    constructor
    case direct => intro τ; simp only [executeOne, gateDirect]
    case areReads => exact gateIsRead
    case follows =>
      intro σ' o _ agree fits
      simp only [executeOne, gateFollows σ' o agree fits, agree.keep_eq]
    all_goals simp
  | ok _ =>
    let env : Env := ⟨clock.height, clock.consensusTime, origin, msg.target, cause⟩
    obtain ⟨result, σ₁, touched, reads, op⟩ := runAt_runs H env
      (fun c overlay => (H.registry.code msg.target).execute c overlay env msg)
      Outputs.opEffects σ
    refine ⟨result, σ₁, touched, gateReads ++ reads, ?_⟩
    constructor
    case direct =>
      intro τ
      simp only [executeOne, gateDirect]
      rw [op.direct, append_assoc]
    case areReads =>
      intro x mem
      exact (mem_append.mp mem).elim (gateIsRead x) (op.areReads x)
    case touched_sub => exact op.touched_sub
    case registered => exact op.registered
    case frame => exact op.frame
    case committed => exact op.committed
    case follows =>
      intro σ' o out agree fits
      rw [fits_append] at fits
      have ran := op.follows σ' (o.advance gateReads) (by simpa using out) (by simpa using agree)
        fits.2
      simp only [executeOne, gateFollows σ' o agree fits.1]
      rw [ran, substituted_advance, advance_append]

variable (ack : Ack) (σ : Stages C O)

/-- Running one acknowledgment at its source. -/
theorem acknowledgeOne_runs :
    ∃ result σ₁ touched reads,
      OpRuns H source (acknowledgeOne H direct clock source cause ack)
        (acknowledgeOne H watch clock source cause ack) σ result σ₁ touched reads :=
  let env : Env := ⟨clock.height, clock.consensusTime, .system, source, cause⟩
  runAt_runs H env (fun c overlay => (H.registry.code source).acknowledge c overlay env ack)
    (Outputs.ackEffects source) σ

/-! ## Whole runs -/

/-- What is left of a log once the substituted modules are not counted as touched. -/
def Log.cut (D : Finset ModuleId) (log : Log) : Log := { log with touched := log.touched \ D }

@[simp] theorem Log.cut_empty_set (log : Log) : log.cut ∅ = log := by simp [Log.cut]

theorem Log.cut_append (D : Finset ModuleId) (a b : Log) : (a ++ b).cut D = a.cut D ++ b.cut D := by
  simp [Log.ext_iff', Log.cut, union_sdiff_distrib]

/-- What a direct run does from `σ`, and that the host does the same at any observer that can take
its trace, except that substituted modules are neither moved nor touched. -/
structure Runs {α : Type}
    (direct : Machine C O (List Trace) → α × Machine C O (List Trace) × Log)
    (host : Machine C O Observing → α × Machine C O Observing × Log)
    (σ : Stages C O) (result : α) (σ₁ : Stages C O) (log : Log) (trace : List Trace) : Prop where
  direct : ∀ τ, direct ⟨σ, τ⟩ = (result, ⟨σ₁, τ ++ trace⟩, log)
  registered : ∀ id ∈ log.touched, id ∈ H.registry.ids
  frame : ∀ id ∉ log.touched, σ₁ id = σ id
  committed : ∀ id, (σ₁ id).committed = (σ id).committed
  follows : ∀ σ' o, Agree o.substituted σ' σ → o.Fits trace →
    host ⟨σ', o⟩ = (result, ⟨keep o.substituted σ' σ₁, o.advance trace⟩, log.cut o.substituted)

namespace Runs

variable {H} {α β : Type}
  {direct : Machine C O (List Trace) → α × Machine C O (List Trace) × Log}
  {host : Machine C O Observing → α × Machine C O Observing × Log}
  {direct' direct'' : Machine C O (List Trace) → β × Machine C O (List Trace) × Log}
  {host' host'' : Machine C O Observing → β × Machine C O Observing × Log}
  {σ σ₁ σ₂ : Stages C O} {result : α} {result' : β} {log log' : Log} {trace trace' : List Trace}

/-- A run that stops at once. -/
theorem stop (directEq : ∀ s, direct s = (result, s, .empty))
    (hostEq : ∀ s, host s = (result, s, .empty)) : Runs H direct host σ result σ .empty [] := by
  refine ⟨fun τ => by rw [directEq, append_nil], by simp, by simp, by simp, ?_⟩
  intro σ' o agree _
  rw [hostEq, agree.keep_eq]
  simp [Log.ext_iff', Log.cut]

/-- The same run with another result. -/
theorem returning (run : Runs H direct host σ result σ₁ log trace)
    (directEq : ∀ s s' l, direct s = (result, s', l) → direct' s = (result', s', l))
    (hostEq : ∀ s s' l, host s = (result, s', l) → host' s = (result', s', l)) :
    Runs H direct' host' σ result' σ₁ log trace where
  direct τ := directEq _ _ _ (run.direct τ)
  registered := run.registered
  frame := run.frame
  committed := run.committed
  follows σ' o agree fits := hostEq _ _ _ (run.follows σ' o agree fits)

/-- A run and then another. -/
theorem andThen (first : Runs H direct host σ result σ₁ log trace)
    (rest : Runs H direct' host' σ₁ result' σ₂ log' trace')
    (directEq : ∀ s s' l, direct s = (result, s', l) →
      direct'' s = ((direct' s').1, (direct' s').2.1, l ++ (direct' s').2.2))
    (hostEq : ∀ s s' l, host s = (result, s', l) →
      host'' s = ((host' s').1, (host' s').2.1, l ++ (host' s').2.2)) :
    Runs H direct'' host'' σ result' σ₂ (log ++ log') (trace ++ trace') where
  direct τ := by
    rw [directEq _ _ _ (first.direct τ), rest.direct, append_assoc]
  registered id mem := (mem_union.mp mem).elim (first.registered id) (rest.registered id)
  frame id out := by
    obtain ⟨before, after⟩ := not_or.mp fun mem => out (mem_union.mpr mem)
    exact (rest.frame id after).trans (first.frame id before)
  committed id := (rest.committed id).trans (first.committed id)
  follows σ' o agree fits := by
    rw [fits_append] at fits
    have next := rest.follows (keep o.substituted σ' σ₁) (o.advance trace)
      (by rw [substituted_advance]; exact agree_keep _ _ _) fits.2
    rw [hostEq _ _ _ (first.follows σ' o agree fits.1), next]
    simp only [substituted_advance, keep_keep, Log.cut_append, advance_append]

end Runs

/-- A dispatch and what it adds to the block, once `adds` says which events and records a result
brings. -/
def dispatchAdding {Ω : Type} (W : Watch Ω) (module : ModuleId) (origin : Origin) (cause : Cause)
    (input : Input) (adds : Except Error Effects → List Event × List DispatchRecord)
    (run : Machine C O Ω → Except Error Effects × Machine C O Ω × Finset ModuleId)
    (s : Machine C O Ω) : Except Error Effects × Machine C O Ω × Log :=
  let ran := dispatchOne W module origin cause input run s
  (ran.1, ran.2.1, ⟨ran.2.2, (adds ran.1).1, (adds ran.1).2⟩)

section Planned

variable {module : ModuleId}
  {direct : Machine C O (List Trace) →
    Except Error Effects × Machine C O (List Trace) × Finset ModuleId}
  {host : Machine C O Observing → Except Error Effects × Machine C O Observing × Finset ModuleId}
  {σ σ₁ : Stages C O} {result : Except Error Effects} {touched : Finset ModuleId}
  {reads : List Trace}

/-- Under the host's observer it runs to the same result and is recorded or checked, or its record
stands in for it. -/
theorem dispatchOne_follows (op : OpRuns H module direct host σ result σ₁ touched reads)
    (origin : Origin) (cause : Cause) (input : Input) {σ' : Stages C O}
    (agree : Agree o.substituted σ' σ)
    (fits : o.Fits (reads ++ [.dispatch ⟨module, origin, cause, input, result⟩])) :
    dispatchOne watch module origin cause input host ⟨σ', o⟩
      = (result, ⟨keep o.substituted σ' σ₁,
          o.advance (reads ++ [.dispatch ⟨module, origin, cause, input, result⟩])⟩,
        touched \ o.substituted) := by
  by_cases sub : module ∈ o.substituted
  · -- the record stands in: nothing but the module itself would have moved
    let dispatched : Dispatched := ⟨module, origin, cause, input, result⟩
    have plan : o.plan module origin cause input
        = (.substitute dispatched, o.advance (reads ++ [.dispatch dispatched])) :=
      plan_substitute sub op.areReads fits
    have inside : touched ⊆ o.substituted :=
      op.touched_sub.trans (singleton_subset_iff.mpr sub)
    have unmoved : Agree o.substituted σ' σ₁ :=
      agree.of_frame fun id out => op.frame id fun mem => out (inside mem)
    simp only [dispatchOne, watch, plan, divergence_advance, fits.none]
    rw [unmoved.keep_eq, sdiff_eq_empty_iff_subset.mpr inside]
  · have plan := plan_execute sub origin cause input
    rw [fits_append] at fits
    have ran := op.follows σ' o sub agree fits.1
    have recorded := recordDispatch_of_fits fits.2
    have outside : touched \ o.substituted = touched := by
      refine sdiff_eq_self_of_disjoint (disjoint_left.mpr fun id mem => ?_)
      rw [Finset.mem_singleton.mp (op.touched_sub mem)]
      exact sub
    simp only [dispatchOne, watch, plan, ran, recorded, divergence_advance,
      fits.1.none, outside, advance_append]

theorem dispatchAdding_runs (op : OpRuns H module direct host σ result σ₁ touched reads)
    (origin : Origin) (cause : Cause) (input : Input)
    (adds : Except Error Effects → List Event × List DispatchRecord) :
    Runs H (dispatchAdding Watch.direct module origin cause input adds direct)
      (dispatchAdding watch module origin cause input adds host) σ result σ₁
      ⟨touched, (adds result).1, (adds result).2⟩
      (reads ++ [.dispatch ⟨module, origin, cause, input, result⟩]) where
  direct τ := by simp only [dispatchAdding, dispatchOne, Watch.direct, op.direct, List.append_assoc]
  registered := op.registered
  frame := op.frame
  committed := op.committed
  follows σ' o agree fits := by
    simp only [dispatchAdding, dispatchOne_follows H op origin cause input agree fits, Log.cut]

end Planned

/-- The events and the record an applied op adds. -/
def opAdds (origin : Origin) (cause : Cause) (msg : Msg) :
    Except Error Effects → List Event × List DispatchRecord
  | .ok effects => ((opLog origin cause msg effects ∅).events,
      (opLog origin cause msg effects ∅).dispatches)
  | .error _ => ([], [])

theorem drainLoop_cons {Ω : Type} (W : Watch Ω) (budget : Nat) (origin : Origin) (cause : Cause) (msg : Msg)
    (queue : List QueuedOp) (s : Machine C O Ω) :
    drainLoop H W clock (budget + 1) ((origin, cause, msg) :: queue) s
      = match dispatchAdding W msg.target origin cause (.execute msg.payload)
          (opAdds origin cause msg) (executeOne H W clock origin cause msg) s with
        | (.error e, s, log) => (.error e, s, log)
        | (.ok effects, s, log) =>
          let rest := drainLoop H W clock budget (queue ++ followUps msg.target cause effects) s
          (rest.1, rest.2.1, log ++ rest.2.2) := by
  simp only [dispatchAdding, drainLoop]
  rcases dispatchOne W msg.target origin cause _ _ s with ⟨_ | _, _, _⟩ <;> rfl

theorem drainLoop_runs (budget : Nat) (queue : List QueuedOp) (σ : Stages C O) :
    ∃ result σ₁ log trace,
      Runs H (drainLoop H direct clock budget queue)
        (drainLoop H watch clock budget queue) σ result σ₁ log trace := by
  induction budget generalizing queue σ with
  | zero =>
    cases queue with
    | nil => exact ⟨.ok (), _, _, _, .stop (fun _ => rfl) (fun _ => rfl)⟩
    | cons op queue => exact ⟨.error .budgetExceeded, _, _, _, .stop (fun _ => rfl) (fun _ => rfl)⟩
  | succ budget ih =>
    cases queue with
    | nil => exact ⟨.ok (), _, _, _, .stop (fun _ => rfl) (fun _ => rfl)⟩
    | cons op queue =>
      obtain ⟨origin, cause, msg⟩ := op
      obtain ⟨result, σ₁, touched, reads, ran⟩ := executeOne_runs H clock origin cause msg σ
      have first := dispatchAdding_runs H ran origin cause (.execute msg.payload)
        (opAdds origin cause msg)
      cases result with
      | error e =>
        refine ⟨.error e, _, _, _, first.returning (fun _ _ _ eq => ?_) fun _ _ _ eq => ?_⟩ <;>
          rw [drainLoop_cons, eq]
      | ok effects =>
        obtain ⟨result, σ₂, log, trace, rest⟩ := ih (queue ++ followUps msg.target cause effects) σ₁
        refine ⟨_, _, _, _, first.andThen rest (fun _ _ _ eq => ?_) fun _ _ _ eq => ?_⟩ <;>
          rw [drainLoop_cons, eq]

/-- A source's acknowledgment, exactly like a dispatch. -/
theorem runAck_runs :
    ∃ result σ₁ log trace,
      Runs H (runAck H direct clock source cause ack)
        (runAck H watch clock source cause ack) σ result σ₁ log trace := by
  obtain ⟨result, σ₁, touched, reads, ran⟩ := acknowledgeOne_runs H clock source cause ack σ
  let adds : Except Error Effects → List Event × List DispatchRecord
    | .ok effects => (effects.events, [⟨source, .system, cause, H.wire.ack.encode ack, 0,
        effects.events.length, none, effects.assigned⟩])
    | .error _ => ([], [])
  have first := dispatchAdding_runs H ran .system cause (.acknowledge ack) adds
  have answered : ∀ {Ω : Type} (W : Watch Ω) s, runAck H W clock source cause ack s
      = (dispatchAdding W source .system cause (.acknowledge ack) adds
          (acknowledgeOne H W clock source cause ack) s).map (·.map fun _ => ()) id := by
    intro Ω W s
    simp only [dispatchAdding, runAck]
    rcases dispatchOne W source .system cause _ _ s with ⟨_ | _, _, _⟩ <;> rfl
  refine ⟨result.map fun _ => (), _, _, _, first.returning (fun _ _ _ eq => ?_) fun _ _ _ eq => ?_⟩ <;>
    rw [answered, eq, Prod.map, id]

theorem runStep_runs (step : Step) (σ : Stages C O) :
    ∃ result σ₁ log trace,
      Runs H (runStep H direct clock step) (runStep H watch clock step) σ result σ₁ log trace := by
  cases step with
  | op origin cause msg => exact drainLoop_runs H clock maxDispatches [(origin, cause, msg)] σ
  | ack source cause ack => exact runAck_runs H clock source cause ack σ

/-- The steps of a unit: the host follows the direct run at every observer that can take its
trace. -/
theorem runSteps_runs (steps : List Step) (σ : Stages C O) :
    ∃ result σ₁ log trace,
      Runs H (runSteps H direct clock steps) (runSteps H watch clock steps)
        σ result σ₁ log trace := by
  induction steps generalizing σ with
  | nil => exact ⟨.ok (), _, _, _, .stop (fun _ => rfl) (fun _ => rfl)⟩
  | cons step steps ih =>
    obtain ⟨result, σ₁, log, trace, first⟩ := runStep_runs H clock step σ
    cases result with
    | error e =>
      refine ⟨.error e, _, _, _, first.returning (fun _ _ _ eq => ?_) fun _ _ _ eq => ?_⟩ <;>
        simp only [runSteps, eq]
    | ok _ =>
      obtain ⟨result, σ₂, log', trace', rest⟩ := ih σ₁
      refine ⟨_, _, _, _, first.andThen rest (fun _ _ _ eq => ?_) fun _ _ _ eq => ?_⟩ <;>
        simp only [runSteps, eq]

end Dispatch

/-! ## What no drain changes -/

/-- What of an observer its view of a drain never changes. -/
structure Watch.Keeps {Ω X : Type} (W : Watch Ω) (f : Ω → X) : Prop where
  plan : ∀ o module origin cause input, f (W.plan o module origin cause input).2 = f o
  observe : ∀ live q o, f (W.observe live q o).2 = f o
  recordDispatch : ∀ dispatched o, f (W.recordDispatch dispatched o) = f o

section Keeps

variable {C O Ω X : Type} (H : Host C O) {W : Watch Ω} (clock : BlockClock) {f : Ω → X}
  (keeps : W.Keeps f)
include keeps

/-- An observer under such a view simulates itself, with what is kept held fixed. -/
theorem Watch.Keeps.simulates (x : X) : Watch.Simulates (fun o o' => o = o' ∧ f o = x) W W where
  plan := by
    rintro o _ ⟨rfl, rfl⟩ module origin cause input
    exact ⟨rfl, rfl, keeps.plan o module origin cause input⟩
  observe := by
    rintro o _ ⟨rfl, rfl⟩ live q
    exact ⟨rfl, rfl, keeps.observe live q o⟩
  recordDispatch := by
    rintro o _ ⟨rfl, rfl⟩ dispatched
    exact ⟨rfl, keeps.recordDispatch dispatched o⟩
  divergence := by
    rintro o _ ⟨rfl, -⟩
    rfl

theorem runAt_keeps (env : Env) (code : C → O → Guest (O × Except Error Outputs))
    (effects : Outputs → Except Error Effects) (s : Machine C O Ω) :
    f (runAt H W env code effects s).2.1.observer = f s.observer :=
  (runAt_twins H (keeps.simulates _) env code effects ⟨rfl, rfl⟩).related.2

theorem runGate_keeps (origin : Origin) (target : ModuleId) (s : Machine C O Ω) :
    f (runGate H W clock origin target s).2 = f s.observer :=
  (runGate_twins H clock (keeps.simulates _) origin target ⟨rfl, rfl⟩).2.2

theorem executeOne_keeps (origin : Origin) (cause : Cause) (msg : Msg) (s : Machine C O Ω) :
    f (executeOne H W clock origin cause msg s).2.1.observer = f s.observer :=
  (executeOne_twins H clock (keeps.simulates _) origin cause msg ⟨rfl, rfl⟩).related.2

theorem dispatchOne_keeps (module : ModuleId) (origin : Origin) (cause : Cause) (input : Input)
    {run : Machine C O Ω → Except Error Effects × Machine C O Ω × Finset ModuleId}
    (ran : ∀ s, f (run s).2.1.observer = f s.observer) (s : Machine C O Ω) :
    f (dispatchOne W module origin cause input run s).2.1.observer = f s.observer := by
  have plan := keeps.plan s.observer module origin cause input
  unfold dispatchOne
  split <;> rename_i o eq <;> rw [eq] at plan
  · exact plan
  · split <;> exact plan
  have recorded : ∀ result, f (W.recordDispatch ⟨module, origin, cause, input, result⟩
      (run { s with observer := o }).2.1.observer) = f s.observer := fun result =>
    (keeps.recordDispatch _ _).trans ((ran { s with observer := o }).trans plan)
  dsimp only
  split <;> exact recorded _

theorem drainLoop_keeps (budget : Nat) (queue : List QueuedOp) (s : Machine C O Ω) :
    f (drainLoop H W clock budget queue s).2.1.observer = f s.observer :=
  (drainLoop_twins H clock (keeps.simulates _) budget queue ⟨rfl, rfl⟩).related.2

theorem runStep_keeps (step : Step) (s : Machine C O Ω) :
    f (runStep H W clock step s).2.1.observer = f s.observer :=
  (runStep_twins H clock (keeps.simulates _) step ⟨rfl, rfl⟩).related.2

/-- No steps change what the observer's view keeps. -/
theorem runSteps_keeps (steps : List Step) (s : Machine C O Ω) :
    f (runSteps H W clock steps s).2.1.observer = f s.observer :=
  (runSteps_twins H clock (keeps.simulates _) steps ⟨rfl, rfl⟩).related.2

end Keeps

/-- What of the host's observer no drain changes: its mode, how many units were opened, and on a
replay the witness it serves. -/
def Observing.fixed (o : Observing) : Mode × Nat × List Observed :=
  (o.mode, o.attempted, match o.mode with
    | .live => []
    | .replay _ => o.units)

namespace Observing

section

variable (o : Observing)

theorem diverge_ne_none (module : ModuleId) (reason : String) : (o.diverge module reason).divergence ≠ none := by
  unfold diverge
  cases o.divergence <;> simp

theorem fixed_push (live : o.mode = .live) (item : Trace) : (o.push item).fixed = o.fixed := by
  unfold push
  split
  · rfl
  · simp only [fixed, live]

theorem fixed_nextTrace : o.nextTrace.2.fixed = o.fixed := by
  unfold nextTrace
  split
  · rfl
  · split
    · rfl
    · split <;> rfl

theorem fixed_nextRead : o.nextRead.2.fixed = o.fixed := by
  have next := o.fixed_nextTrace
  unfold nextRead
  split <;> rename_i eq <;> rw [eq] at next <;> exact next

theorem fixed_nextDispatch : o.nextDispatch.2.fixed = o.fixed := by
  unfold nextDispatch
  split
  · rfl
  split
  · rfl
  · dsimp only
    split <;> rfl

theorem fixed_closeOpen : o.closeOpen.fixed = o.fixed := by
  unfold closeOpen
  split
  · split
    · rfl
    · split <;> rfl
  · rfl

theorem fixed_beginUnit : o.beginUnit.2.fixed = (o.fixed.1, o.fixed.2.1 + 1, o.fixed.2.2) := by
  rw [← o.fixed_closeOpen]
  simp only [beginUnit, fixed]
  cases o.closeOpen.mode <;> rfl

theorem fixed_resume (entry : Nat) : (o.resume entry).fixed = o.fixed := by
  rw [← o.fixed_closeOpen]
  rfl

end

theorem watch_keeps_fixed : watch.Keeps fixed where
  plan o module origin cause input := by
    have next := o.fixed_nextDispatch
    simp only [watch, plan]
    split
    · rfl
    split
    · rfl
    · split <;> rename_i eq <;> rw [eq] at next
      · exact next
      · split <;> exact next
  observe live q o := by
    have next := o.fixed_nextRead
    cases q with
    | query | root =>
      simp only [watch, observe, observeQuery, observeRoot]
      split
      · rename_i mode
        exact fixed_push o mode _
      split <;> rename_i eq <;> rw [eq] at next
      · split <;> exact next
      · exact next
      · exact next
  recordDispatch dispatched o := by
    have next := o.fixed_nextTrace
    simp only [watch, recordDispatch]
    split
    · rename_i mode
      exact fixed_push o mode _
    split <;> rename_i eq <;> rw [eq] at next
    · split <;> exact next
    · exact next
    · exact next

end Observing

end Ducktape
