import Ducktape.Modules.SagaExact

/-! # One callback per saga

`Fate id` is what an operation can do to one saga: an ended one stays as it is or goes, a live one stays live
or ends, with its callback. Every step of a run is a fate of each id but the one it opens (`Effect.fate`), so
over a run an id is called back at most once per opening (`one_callback`). -/

namespace Ducktape.SagaModule

open Lib Function List Option

/-! ## Fates -/

theorem Kept.refl (saga : Saga) : Kept saga saga := ⟨rfl, rfl, rfl, rfl, rfl, le_rfl, fun h => h⟩

theorem Kept.trans {old mid new : Saga} (first : Kept old mid) (second : Kept mid new) : Kept old new where
  origin := second.origin.trans first.origin
  replyTo := second.replyTo.trans first.replyTo
  replyPayload := second.replyPayload.trans first.replyPayload
  specLen := second.specLen.trans first.specLen
  maxAttempts := second.maxAttempts.trans first.maxAttempts
  attempt := first.attempt.trans second.attempt
  within h := second.within (first.within h)

/-- What moves do to the record of an id, with the callbacks that name it. -/
inductive Fate (id : SagaId) : Option Saga → List Call → Option Saga → Prop
  | absent : Fate id none [] none
  | settled {old after} (ended : old.status ≠ .pending) (stays : after = some old ∨ after = none) :
      Fate id (some old) [] after
  | lives {old new} (live : old.status = .pending) (still : new.status = .pending) (kept : Kept old new) :
      Fate id (some old) [] (some new)
  | ends {old new after} {outcome : SagaOutcome} (live : old.status = .pending)
      (ended : new.status = outcome.status) (kept : Kept old new) (stays : after = some new ∨ after = none) :
      Fate id (some old) (callbacks id new outcome) after

/-- The callbacks that name an id. -/
def callsFor (id : SagaId) (calls : List Call) : List Call := calls.filter (·.2.sagaId = id)

section fates

variable {S : SagaModule} {s s' : Store} {id : SagaId} {calls rest : List Call} {before mid after : Option Saga}

@[simp] theorem callsFor_nil : callsFor id [] = [] := rfl

@[simp] theorem callsFor_append : callsFor id (calls ++ rest) = callsFor id calls ++ callsFor id rest :=
  filter_append ..

@[simp] theorem callsFor_self (saga : Saga) (outcome : SagaOutcome) :
    callsFor id (callbacks id saga outcome) = callbacks id saga outcome := by
  unfold callsFor callbacks
  cases saga.replyTo <;> simp

theorem Fate.refl (id : SagaId) (before : Option Saga) : Fate id before [] before := by
  cases before with
  | none => exact .absent
  | some old =>
    by_cases live : old.status = .pending
    · exact .lives live live (.refl old)
    · exact .settled live (.inl rfl)

/-- An ended saga's record, kept or gone, has only itself to stay as. -/
theorem Fate.of_ended {old : Saga} (ended : old.status ≠ .pending) (stays : mid = some old ∨ mid = none)
    (fate : Fate id mid calls after) : calls = [] ∧ (after = some old ∨ after = none) := by
  rcases stays with rfl | rfl
  · cases fate with
    | settled _ stays => exact ⟨rfl, stays⟩
    | lives live | ends live => exact absurd live ended
  · cases fate
    exact ⟨rfl, .inr rfl⟩

theorem Fate.trans (first : Fate id before calls mid) (second : Fate id mid rest after) :
    Fate id before (calls ++ rest) after := by
  cases first with
  | absent => exact second
  | settled ended stays =>
    obtain ⟨rfl, stays⟩ := second.of_ended ended stays
    exact .settled ended stays
  | lives live still kept =>
    cases second with
    | settled ended => exact absurd still ended
    | lives _ still kept' => exact .lives live still (kept.trans kept')
    | ends _ ended kept' stays => exact .ends live ended (kept.trans kept') stays
  | @ends _ new _ outcome live ended kept stays =>
    have settled : new.status ≠ .pending := ended ▸ outcome_status_ne outcome
    obtain ⟨rfl, stays⟩ := second.of_ended settled stays
    rw [append_nil]
    exact .ends live ended kept stays

theorem Move.fate {moved : SagaId} (move : Move S moved s calls s') (id : SagaId) :
    Fate id (record s id) (callsFor id calls) (record s' id) := by
  by_cases same : id = moved
  · subst same
    cases move with
    | changed found live put still kept =>
      rw [found, put.record, update_self]
      exact .lives live still kept
    | ended found live put ends kept =>
      rw [found, put.record, update_self, callsFor_self]
      exact .ends live ends kept (.inl rfl)
    | removed found ended removed =>
      rw [found, removed.record, update_self]
      exact .settled ended (.inr rfl)
  · have silent : callsFor id calls = [] := by
      cases move with
      | changed | removed => rfl
      | ended => simp [callsFor, callbacks, Ne.symm same]
    rw [move.frame same, silent]
    exact .refl id _

theorem Moves.fate (moves : Moves S s calls s') (id : SagaId) :
    Fate id (record s id) (callsFor id calls) (record s' id) := by
  induction moves with
  | nil => exact .refl id _
  | cons move _ ih =>
    rw [callsFor_append]
    exact (move.fate id).trans ih

end fates

/-! ## Chains of steps -/

/-- The id a step opens. -/
def Step.opened (step : Step) : Option SagaId := (opening step.before step.msg).map Prod.fst

/-- The callbacks among the messages of a step, as their targets read them. -/
def called (S : SagaModule) (emitted : List Msg) : List Call :=
  emitted.filterMap fun msg => (S.sagaWire.callback.decode msg.payload).toOption.map (msg.target, ·)

/-- The callbacks of a step that name an id. -/
def callsOf (S : SagaModule) (id : SagaId) (step : Step) : List Call := callsFor id (S.called step.emitted)

/-- What a step of a run is. -/
structure Happened (S : SagaModule) (step : Step) : Prop where
  effect : ∃ calls, step.emitted = S.messages calls ∧ Effect S step.before step.msg calls step.after
  within : ∀ id saga, record step.after id = some saga → saga.attempt < saga.maxAttempts
  /-- A result changes nothing, or names the live attempt and comes from whom the policy lets. -/
  landed : ∀ id attempt outcome, step.msg = .oracleResult id attempt outcome → step.after = step.before ∨
    ∃ saga, record step.before id = some saga ∧ attempt = saga.attempt ∧ S.mayLand step.env saga = true

/-- Steps one after the other. -/
def Chained (S : SagaModule) (s : Store) : List Step → Store → Prop
  | [], s' => s = s'
  | step :: steps, s' => step.before = s ∧ Happened S step ∧ Chained S step.after steps s'

section chains

variable {S : SagaModule} {s s' : Store} {id : SagaId} {calls : List Call} {step : Step} {steps base : List Step}
  {staged : StagedStore Key Value} {specs : SagaId → Bytes}

theorem chained_append {later : List Step} : Chained S s (steps ++ later) s' ↔
    ∃ m, Chained S s steps m ∧ Chained S m later s' := by
  induction steps generalizing s with
  | nil => simp [Chained]
  | cons step steps ih =>
    simp only [cons_append, Chained, ih]
    constructor
    · rintro ⟨starts, happened, m, chained, later⟩
      exact ⟨m, ⟨starts, happened, chained⟩, later⟩
    · rintro ⟨m, ⟨starts, happened, chained⟩, later⟩
      exact ⟨starts, happened, m, chained, later⟩

theorem happened_call (call : Invocation Msg) (sound : Sound S specs staged.get) :
    Chained S staged.get (S.stepOf call staged) (call.settle S.execute staged).get := by
  rcases call_cases call sound with ⟨same, nothing⟩ | ⟨msg, out, calls, step, ends, effect, trimmed⟩
  · rw [same, nothing]
    exact rfl
  rw [step]
  refine ⟨rfl, ⟨⟨calls, rfl, effect⟩, (effect.exact sound.exact).attempts, ?_⟩, rfl⟩
  rintro id attempt outcome rfl
  obtain ⟨_, m, handles, trims⟩ := Handler.ends_bind.mp ends
  rcases (did_oracleResult handles).2 with rfl | ⟨saga, found, -, same, lands⟩
  · exact .inl (congrArg StagedStore.get (Scratch.mk.inj (idle_trim sound.trimmed trims)).1)
  · exact .inr ⟨saga, found, same, lands⟩

theorem Reachable.chained (run : Reachable S staged steps base) :
    Chained S (fun _ => none) steps staged.get ∧ Chained S (fun _ => none) base staged.store := by
  induction run with
  | genesis => exact ⟨rfl, rfl⟩
  | call call run ih =>
    refine ⟨chained_append.mpr ⟨_, ih.1, happened_call call run.sound.1⟩, ?_⟩
    rw [store_settle]
    exact ih.2
  | commit _ ih => exact ⟨ih.1, ih.1⟩
  | abort _ ih => exact ⟨ih.2, ih.2⟩

/-- An operation is a fate of every id it does not open. -/
theorem Effect.fate {msg : SagaMsg} (effect : Effect S s msg calls s')
    (other : (opening s msg).map Prod.fst ≠ some id) :
    Fate id (record s id) (callsFor id calls) (record s' id) := by
  cases effect with
  | @opened named spec saga m _ opens opened trims =>
    have apart : id ≠ named := fun same => other (by rw [opens, same]; rfl)
    have fate := trims.fate id
    rwa [opened.record, update_of_ne apart] at fate
  | moved _ moves => exact moves.fate id

/-- What an operation does to the id it opens. -/
theorem Effect.opens {msg : SagaMsg} (effect : Effect S s msg calls s')
    (named : (opening s msg).map Prod.fst = some id) :
    record s id = none ∧ calls = [] ∧ ∃ saga, record s' id = some saga ∧ saga.status = .pending := by
  cases effect with
  | opened opens opened _ stays =>
    rw [opens] at named
    obtain rfl := some.inj named
    exact ⟨opened.fresh, rfl, _, stays, opened.status⟩
  | moved opens =>
    rw [opens] at named
    cases named

section

variable (faithful : S.sagaWire.callback.RoundTrips)
include faithful

theorem called_messages (calls : List Call) : S.called (S.messages calls) = calls := by
  induction calls with
  | nil => rfl
  | cons call calls ih =>
    have read : S.sagaWire.callback.decode (S.sagaWire.callback.encode call.2) = .ok call.2 := faithful _
    rw [called, messages, map_cons, filterMap_cons_some (by rw [read]; rfl)]
    exact congrArg _ ih

theorem Happened.fate (happened : Happened S step) (other : step.opened ≠ some id) :
    Fate id (record step.before id) (S.callsOf id step) (record step.after id) := by
  obtain ⟨calls, emitted, effect⟩ := happened.effect
  rw [callsOf, emitted, called_messages faithful]
  exact effect.fate other

theorem Happened.opens (happened : Happened S step) (named : step.opened = some id) :
    record step.before id = none ∧ S.callsOf id step = [] ∧
      ∃ saga, record step.after id = some saga ∧ saga.status = .pending := by
  obtain ⟨calls, emitted, effect⟩ := happened.effect
  obtain ⟨fresh, rfl, opened⟩ := effect.opens named
  exact ⟨fresh, by rw [callsOf, emitted, called_messages faithful, callsFor_nil], opened⟩

/-- Steps that do not open an id are one fate of it. -/
theorem Chained.fate (chained : Chained S s steps s') (others : ∀ step ∈ steps, step.opened ≠ some id) :
    Fate id (record s id) (steps.flatMap (S.callsOf id)) (record s' id) := by
  induction steps generalizing s with
  | nil =>
    obtain rfl := chained
    exact .refl id _
  | cons step steps ih =>
    obtain ⟨rfl, happened, chained⟩ := chained
    exact (happened.fate faithful (others step mem_cons_self)).trans
      (ih chained fun other mem => others other (mem_cons_of_mem _ mem))

end

/-- One while a saga is live, and zero else. -/
def liveOf (saga : Option Saga) : Nat := if saga.any (·.status = .pending) then 1 else 0

theorem liveOf_le_one (saga : Option Saga) : liveOf saga ≤ 1 := by
  unfold liveOf
  split <;> omega

theorem length_callbacks_le (id : SagaId) (saga : Saga) (outcome : SagaOutcome) :
    (callbacks id saga outcome).length ≤ 1 := by
  unfold callbacks
  cases saga.replyTo <;> simp

/-- A callback uses the live saga up. -/
theorem Fate.length_add_liveOf_le {before after : Option Saga} (fate : Fate id before calls after) :
    calls.length + liveOf after ≤ liveOf before := by
  cases fate with
  | absent => simp
  | settled ended stays => rcases stays with rfl | rfl <;> simp [liveOf]
  | lives live still => simp [liveOf, live, still]
  | @ends old new _ outcome live ended kept stays =>
    have settled : new.status ≠ .pending := ended ▸ outcome_status_ne outcome
    have one := length_callbacks_le id new outcome
    rcases stays with rfl | rfl <;> simpa [liveOf, live, settled] using one

/-- Over a chain, each callback uses up an opening, or the saga that was live at the start. -/
theorem Chained.length_add_liveOf_le (faithful : S.sagaWire.callback.RoundTrips) (chained : Chained S s steps s') :
    (steps.flatMap (S.callsOf id)).length + liveOf (record s' id)
      ≤ steps.countP (·.opened = some id) + liveOf (record s id) := by
  induction steps generalizing s with
  | nil =>
    obtain rfl := chained
    simp
  | cons step steps ih =>
    obtain ⟨rfl, happened, chained⟩ := chained
    have later := ih chained
    rw [flatMap_cons, length_append, countP_cons]
    by_cases named : step.opened = some id
    · obtain ⟨fresh, silent, saga, found, live⟩ := happened.opens faithful named
      rw [silent]
      simp only [found, liveOf, live, any_some, named, length_nil] at later ⊢
      omega
    · have here := (happened.fate faithful named).length_add_liveOf_le
      omega

theorem Chained.happened (chained : Chained S s steps s') (mem : step ∈ steps) : Happened S step := by
  obtain ⟨first, rest, rfl⟩ := append_of_mem mem
  obtain ⟨_, -, -, happened, -⟩ := chained_append.mp chained
  exact happened

end chains

/-! ## One callback per opening -/

/-- What a step does to one saga. -/
structure Obeys (S : SagaModule) (id : SagaId) (step : Step) : Prop where
  /-- A callback comes only with the end of a live saga. -/
  called : S.callsOf id step ≠ [] → liveOf (record step.before id) = 1 ∧ liveOf (record step.after id) = 0
  /-- A live saga that ends tells its requester how, once. -/
  tells : ∀ old target, record step.before id = some old → old.status = .pending → old.replyTo = some target →
    liveOf (record step.after id) = 0 → ∃ outcome,
      S.callsOf id step = [(target, ⟨id, old.replyPayload, outcome⟩)] ∧
      ∀ new, record step.after id = some new → new.status = outcome.status
  /-- An ended saga stays as it is until it is removed, and says nothing more. -/
  final : ∀ old, record step.before id = some old → old.status ≠ .pending →
    (record step.after id = some old ∨ record step.after id = none) ∧ S.callsOf id step = []
  attempts : ∀ old new, record step.before id = some old → record step.after id = some new →
    old.attempt ≤ new.attempt ∧ new.maxAttempts = old.maxAttempts
  within : ∀ new, record step.after id = some new → new.attempt < new.maxAttempts
  /-- Under the strict policy only the assignee's result of the current attempt changes anything. -/
  strict : S.policy = .strict → ∀ attempt outcome, step.msg = .oracleResult id attempt outcome →
    step.after ≠ step.before → ∃ saga key, record step.before id = some saga ∧ attempt = saga.attempt ∧
      saga.assignee = some key ∧ step.env.origin = .external key

section obeys

variable {S : SagaModule} {id : SagaId} {step : Step} {before after : Option Saga} {calls : List Call}

theorem Fate.called (fate : Fate id before calls after) (some : calls ≠ []) :
    liveOf before = 1 ∧ liveOf after = 0 := by
  have spent := fate.length_add_liveOf_le
  have long := length_pos_of_ne_nil some
  have most := liveOf_le_one before
  omega

theorem Fate.tells {old : Saga} {target : ModuleId} (fate : Fate id (some old) calls after)
    (live : old.status = .pending) (named : old.replyTo = some target) (ended : liveOf after = 0) :
    ∃ outcome, calls = [(target, ⟨id, old.replyPayload, outcome⟩)] ∧
      ∀ new, after = some new → new.status = outcome.status := by
  cases fate with
  | settled ended => exact absurd live ended
  | lives _ still => simp [liveOf, still] at ended
  | @ends _ new _ outcome _ status kept stays =>
    refine ⟨outcome, by simp [callbacks, kept.replyTo, kept.replyPayload, named], ?_⟩
    rintro new' rfl
    rcases stays with same | gone
    · rw [some.inj same]
      exact status
    · cases gone

theorem Fate.attempts {old new : Saga} (fate : Fate id (some old) calls (some new)) :
    old.attempt ≤ new.attempt ∧ new.maxAttempts = old.maxAttempts := by
  cases fate with
  | settled _ stays =>
    rcases stays with same | gone
    · rw [some.inj same]
      exact ⟨le_rfl, rfl⟩
    · cases gone
  | lives _ _ kept => exact ⟨kept.attempt, kept.maxAttempts⟩
  | ends _ _ kept stays =>
    rcases stays with same | gone
    · rw [some.inj same]
      exact ⟨kept.attempt, kept.maxAttempts⟩
    · cases gone

theorem eq_of_holds {env : Env} {saga : Saga} (held : holds env saga = true) :
    ∃ key, saga.assignee = some key ∧ env.origin = .external key := by
  unfold holds at held
  split at held
  · rename_i assignee origin named
    exact ⟨assignee, named, by rw [origin, of_decide_eq_true held]⟩
  · cases held

theorem Happened.obeys (faithful : S.sagaWire.callback.RoundTrips) (happened : Happened S step) (id : SagaId) :
    Obeys S id step := by
  have strict : S.policy = .strict → ∀ attempt outcome, step.msg = .oracleResult id attempt outcome →
      step.after ≠ step.before → ∃ saga key, record step.before id = some saga ∧ attempt = saga.attempt ∧
        saga.assignee = some key ∧ step.env.origin = .external key := by
    intro policy attempt outcome sent changed
    obtain ⟨saga, found, same, lands⟩ := (happened.landed id attempt outcome sent).resolve_left changed
    rw [mayLand, policy] at lands
    obtain ⟨key, assignee, origin⟩ := eq_of_holds lands
    exact ⟨saga, key, found, same, assignee, origin⟩
  by_cases named : step.opened = some id
  · obtain ⟨fresh, silent, -⟩ := happened.opens faithful named
    refine ⟨fun calls => absurd silent calls, ?_, ?_, ?_, happened.within id, strict⟩ <;>
      · simp [fresh]
  · have fate := happened.fate faithful named
    refine ⟨fate.called, fun old target found => ?_, fun old found ended => ?_, fun old new found found' => ?_,
      happened.within id, strict⟩
    · rw [found] at fate
      exact fate.tells
    · rw [found] at fate
      exact (fate.of_ended ended (.inl rfl)).symm
    · rw [found, found'] at fate
      exact fate.attempts

end obeys

/-- Over every run, an id is called back at most once between openings and no more often than it was opened,
and every step obeys the rules of one saga. -/
theorem one_callback {S : SagaModule} {staged : StagedStore Key Value} {steps base : List Step}
    (faithful : S.sagaWire.callback.RoundTrips) (run : Reachable S staged steps base) (id : SagaId) :
    (∀ first later rest, steps = first ++ later ++ rest → (∀ step ∈ later, step.opened ≠ some id) →
        (later.flatMap (S.callsOf id)).length ≤ 1) ∧
      (steps.flatMap (S.callsOf id)).length + liveOf (record staged.get id)
        ≤ steps.countP (·.opened = some id) ∧
      ∀ step ∈ steps, Obeys S id step := by
  have chained := run.chained.1
  have total : _ ≤ _ + liveOf (record (fun _ => none) id) := chained.length_add_liveOf_le faithful
  refine ⟨?_, total, fun step mem => (chained.happened mem).obeys faithful id⟩
  rintro first later rest rfl others
  obtain ⟨_, chained, -⟩ := chained_append.mp chained
  obtain ⟨m, -, chained⟩ := chained_append.mp chained
  have spent := (chained.fate faithful others).length_add_liveOf_le
  have most := liveOf_le_one (record m id)
  omega

/-! ### A sample run -/

theorem callbackCodec_roundTrips : callbackCodec.RoundTrips := by
  rintro ⟨id, payload, outcome⟩
  cases outcome <;> simp [callbackCodec, Borsh.Format.reads_marked _ _]

theorem one_callback_job :
    let run := jobRun [[], [0], [1]]
    (record run.1.get jobId).map Saga.status = some .done ∧ run.2.countP (·.opened = some jobId) = 1 ∧
      (run.2.flatMap (jobLedger.callsOf jobId)).length + liveOf (record run.1.get jobId)
        ≤ run.2.countP (·.opened = some jobId) :=
  ⟨by decide +kernel, by decide +kernel, (one_callback callbackCodec_roundTrips (reachable_jobRun _) jobId).2.1⟩

end Ducktape.SagaModule
