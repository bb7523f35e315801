import Ducktape.Host.Sequential

/-! # The host's runner refines transactions

`Settled` and `InAir` relate the host's block to the sequential one, between units and with an
accepted unit in flight. `hostUnits_lockstep` shows the host's runner follows the sequential one under
every observation source: on the live path always; on a replay as long as the witness covers what is
attempted (`Recorded`), or until a unit the live block left out is attempted after all. That happens
exactly when the live block used up its replay budget on units of which the replay rolls back fewer
(`Parted`), and the replay then holds more units than its witness (`Overrun`). -/

namespace Ducktape

open Lib Observing Sequential List Finset BlockRun Observation.Covers Log Nat

/-! ## The host's runner against transactions -/

section Refinement

variable {C O : Type} (H : Host C O) (clock : BlockClock) (obs : Observation) (pre pre' : Stages C O)

/-- What the host's bookkeeping is to the sequential block's, at any time: `pre` is the block's
start, and `pre'` what a host holds that stands in for the modules already past the block. -/
structure Books (s : Sequential C O) (b : BlockRun C O) : Prop where
  accepted : b.accepted = s.accepted
  replays : b.replays = (s.rollbacks.filter (·.reaches obs.substituted)).length
  composes : Composes H clock s.units pre s.accepted s.stages s.touched
  budget : s.rollbacks.length ≤ maxBlockReplays + 1
  reached : ∀ r ∈ s.rollbacks, r.reaches ∅
  /-- Units were left out only once the budget was used up, by the host's count too. -/
  agreed : 0 < s.skipped → s.exhausted = true ∧ ∀ r ∈ s.rollbacks, r.reaches obs.substituted

/-- Between units. -/
structure Settled (s : Sequential C O) (b : BlockRun C O) : Prop
    extends Books H clock obs pre s b where
  stages : b.stages = keep obs.substituted pre' s.stages
  touched : b.touched = s.touched \ obs.substituted
  landed : s.flight = none
  observer : b.observer.Stands obs s.units

/-- With an accepted unit in flight, whose transaction left `σ₁`, the trace `t` and `log`. -/
structure Airborne (unit : AcceptedUnit) (σ₁ : Stages C O) (t : List Trace) (log : Log)
    (s : Sequential C O) (b : BlockRun C O) : Prop extends Books H clock obs pre s b where
  ran : transact H clock unit.steps s.stages = (.ok (), ⟨σ₁, t⟩, log)
  events : unit.events = log.events
  dispatches : unit.dispatches = log.dispatches
  entry : unit.entry = s.units.length
  stages : b.stages = keep obs.substituted pre' σ₁
  touched : b.touched = (s.touched ∪ log.touched) \ obs.substituted
  aloft : s.flight = some t
  observer : b.observer.InFlight obs s.units t
  spare : s.rollbacks.length ≤ maxBlockReplays

/-- An accepted unit is in flight. -/
def InAir (unit : AcceptedUnit) (s : Sequential C O) (b : BlockRun C O) : Prop :=
  ∃ σ₁ t log, Airborne H clock obs pre pre' unit σ₁ t log s b

variable {H clock obs pre} {s : Sequential C O} {b : BlockRun C O} {log : Log} {steps : List Step}
  {t : List Trace} {verdict : Except Error Unit} {σ₁ : Stages C O}

variable {units : List Observed}

/-- The host drives steps on top of an open unit as their transaction does. -/
theorem runSteps_inFlight {σ : Stages C O} {t₀ : List Trace} {o : Observing}
    (ran : transact H clock steps σ = (verdict, ⟨σ₁, t⟩, log)) (flight : o.InFlight obs units t₀)
    (covers : obs.Covers units (some (t₀ ++ t))) :
    runSteps H watch clock steps ⟨keep obs.substituted pre' σ, o⟩
        = (verdict, ⟨keep obs.substituted pre' σ₁, o.advance t⟩, log.cut obs.substituted) ∧
      (o.advance t).InFlight obs units (t₀ ++ t) := by
  obtain ⟨fits, flight'⟩ := flight.extend covers
  have sub := substituted_of_mode flight.mode
  have follows := (transact_runs H clock ran).follows (keep obs.substituted pre' σ) o
    (by rw [sub]; exact agree_keep _ _ _) fits
  rw [sub, keep_keep] at follows
  exact ⟨follows, flight'⟩

variable {pre'}

/-- The modules touched by the accepted units and one more run hold everything that moved. -/
theorem Composes.on_top {accepted : List AcceptedUnit} {σ : Stages C O} {touched : Finset ModuleId}
    (composes : Composes H clock units pre accepted σ touched)
    (ran : transact H clock steps σ = (verdict, ⟨σ₁, t⟩, log)) :
    (∀ id ∉ touched ∪ log.touched, σ₁ id = pre id) ∧ (∀ id, (σ₁ id).committed = (pre id).committed) ∧
      ∀ id ∈ touched ∪ log.touched, id ∈ H.registry.ids := by
  have runs := transact_runs H clock ran
  refine ⟨fun id out => ?_, fun id => ?_, fun id mem => ?_⟩
  · obtain ⟨before, after⟩ := not_or.mp fun mem => out (mem_union.mpr mem)
    exact (runs.frame id after).trans (composes.frame id before)
  · exact (runs.committed id).trans (composes.committed id)
  · exact (mem_union.mp mem).elim (composes.registered id) (runs.registered id)

/-- After an entry that took no effect the host is settled again, if it rolled back what the entry
counts. -/
theorem Books.record (books : Books H clock obs pre s b) (landed : s.flight = none)
    (ready : s.rollbacks.length ≤ maxBlockReplays) {rollbacks : List Rollback}
    (one : rollbacks.length ≤ 1) (reached : ∀ r ∈ rollbacks, r.reaches ∅) {b' : BlockRun C O}
    (accepted : b'.accepted = b.accepted)
    (replays : b'.replays = b.replays + (rollbacks.filter (·.reaches obs.substituted)).length)
    (stages : b'.stages = keep obs.substituted pre' s.stages)
    (touched : b'.touched = s.touched \ obs.substituted)
    (stands : b'.observer.Stands obs (s.units ++ [⟨t⟩])) :
    Settled H clock obs pre pre' (s.record t rollbacks) b' := by
  simp only [Sequential.record, Sequential.close_of_none landed]
  refine ⟨⟨?_, ?_, ?_, ?_, ?_, ?_⟩, stages, touched, landed, stands⟩
  · exact accepted.trans books.accepted
  · rw [replays, books.replays, filter_append, length_append]
  · exact books.composes.more _
  · rw [length_append]; omega
  · intro r mem
    exact (mem_append.mp mem).elim (books.reached r) (reached r)
  · intro skipped
    have exhausted := (books.agreed skipped).1
    simp only [Sequential.exhausted, decide_eq_true_eq] at exhausted
    omega

theorem Books.carry (books : Books H clock obs pre s b) (flight : Option (List Trace))
    (m : Machine C O Observing) (log : Log) : Books H clock obs pre { s with flight } (b.ran m log) :=
  ⟨books.accepted, books.replays, books.composes, books.budget, books.reached, books.agreed⟩

theorem rollbackOf_length (T : Finset ModuleId) : (rollbackOf T).length ≤ 1 := by
  unfold rollbackOf; split <;> simp

theorem rollbackOf_reaches_empty (T : Finset ModuleId) : ∀ r ∈ rollbackOf T, r.reaches ∅ := by
  unfold rollbackOf
  split <;> simp_all [Rollback.reaches]

/-- A rejected unit is rolled back where it reached a module that is not stood in for. -/
theorem rollbackOf_filter_length (T D : Finset ModuleId) :
    ((rollbackOf T).filter (·.reaches D)).length = if T \ D = ∅ then 0 else 1 := by
  unfold rollbackOf
  by_cases T \ D = ∅ <;> by_cases T = ∅ <;>
    simp_all [Rollback.reaches]

/-- A unit that applies is accepted by both. -/
theorem Settled.accepts (settled : Settled H clock obs pre pre' s b) (spare : b.budgetExhausted = false)
    (ready : s.exhausted = false) (ran : transact H clock steps s.stages = (.ok (), ⟨σ₁, t⟩, log))
    (covers : obs.Covers s.units (some t)) : ∃ b', runUnit H clock steps b
        = .ok (.accepted ⟨.member 0, .member, steps, log.events, log.dispatches, s.units.length⟩, b') ∧
      Airborne H clock obs pre pre'
        ⟨.member 0, .member, steps, log.events, log.dispatches, s.units.length⟩ σ₁ t log
        { s with flight := some t } b' := by
  obtain ⟨entry, opened⟩ := settled.observer.begin (shorter covers)
  obtain ⟨driven, flight⟩ := runSteps_inFlight pre' ran opened covers
  refine ⟨b.ran ⟨keep obs.substituted pre' σ₁, b.observer.beginUnit.2.advance t⟩
    (log.cut obs.substituted), ?_, ?_⟩
  · rw [← settled.stages] at driven
    simp only [runUnit, spare, driven, checkWitness, BlockRun.ran, flight.undiverged, entry]
    rfl
  · exact { toBooks := settled.carry _ _ _, ran := ran, events := rfl,
            dispatches := rfl, entry := rfl, stages := rfl,
            touched := by simp only [BlockRun.ran, settled.touched, cut, union_sdiff_distrib],
            aloft := rfl, observer := flight,
            spare := by simpa [exhausted] using ready }

/-- What a rejected unit leaves is rolled back, by both or by neither. -/
theorem Settled.rejects (atStart : AtBoundary H pre) (settled : Settled H clock obs pre pre' s b)
    (spare : b.budgetExhausted = false) (ready : s.exhausted = false) {reason : Error}
    (ran : transact H clock steps s.stages = (.error reason, ⟨σ₁, t⟩, log))
    (covers : obs.Covers (s.units ++ [⟨t⟩]) none) :
    ∃ b', runUnit H clock steps b = .ok (.rejected reason, b') ∧
      Settled H clock obs pre pre' (s.record t (rollbackOf log.touched)) b' := by
  obtain ⟨entry, opened⟩ := settled.observer.begin (shorter covers.of_ended)
  obtain ⟨driven, flight⟩ := runSteps_inFlight pre' ran opened covers.of_ended
  have stands := flight.close covers
  have ready : s.rollbacks.length ≤ maxBlockReplays := by simpa [exhausted] using ready
  let b₁ := b.ran ⟨keep obs.substituted pre' σ₁, b.observer.beginUnit.2.advance t⟩
    (log.cut obs.substituted)
  by_cases reached : log.touched \ obs.substituted = ∅
  · -- nothing but substituted modules was dispatched: no stage the host holds moved
    have unmoved : keep obs.substituted pre' σ₁ = keep obs.substituted pre' s.stages := by
      funext id
      by_cases sub : id ∈ obs.substituted
      · simp [keep, sub]
      · have out : id ∉ log.touched := fun mem =>
          sub (sdiff_eq_empty_iff_subset.mp reached mem)
        simp [keep, (transact_runs H clock ran).frame id out]
    refine ⟨b₁, ?_, ?_⟩
    · rw [runUnit_of_rejected spare (settled.stages ▸ driven) stands.undiverged]
      exact if_neg (not_not.mpr reached)
    · refine settled.record settled.landed ready (rollbackOf_length _) (rollbackOf_reaches_empty _)
        rfl ?_ unmoved ?_ stands
      · rw [rollbackOf_filter_length, if_pos reached]
        rfl
      · simp only [b₁, BlockRun.ran, cut, reached, union_empty, settled.touched]
  · obtain ⟨frame, committed, registered⟩ := settled.composes.on_top ran
    have composes : Composes H clock (s.units ++ [⟨t⟩]) pre b₁.accepted s.stages s.touched :=
      settled.accepted ▸ settled.composes.more [⟨t⟩]
    have held : b₁.touched = (s.touched ∪ log.touched) \ obs.substituted := by
      simp only [b₁, BlockRun.ran, settled.touched, cut, union_sdiff_distrib]
    obtain ⟨o, stands', isolated⟩ :=
      isolate_composes atStart frame committed registered composes rfl held stands
    refine ⟨{ b₁ with stages := keep obs.substituted pre' s.stages, observer := o,
                      touched := s.touched \ obs.substituted, replays := b₁.replays + 1 }, ?_,
      settled.record settled.landed ready (rollbackOf_length _) (rollbackOf_reaches_empty _) rfl ?_
        rfl rfl stands'⟩
    · rw [runUnit_of_rejected spare (settled.stages ▸ driven) stands.undiverged]
      exact (if_pos reached).trans (congrArg _ isolated)
    · rw [rollbackOf_filter_length, if_neg reached]
      rfl

section Airborne

variable {unit : AcceptedUnit} {σ₁ σ₂ : Stages C O} {t t' : List Trace} {log log' : Log}

/-- The unit in flight takes effect. -/
theorem Airborne.accepts (air : Airborne H clock obs pre pre' unit σ₁ t log s b)
    (covers : obs.Covers (s.units ++ [⟨t⟩]) none) (slot : Slot) (resolved : Resolved) :
    Settled H clock obs pre pre'
      (accept H clock { unit with slot := slot, resolved := resolved } s)
      { b with accepted := b.accepted ++ [{ unit with slot := slot, resolved := resolved }] } := by
  have entry : (s.units ++ [⟨t⟩])[unit.entry]? = some ⟨t⟩ := by rw [air.entry]; simp
  have closed : s.close.units = s.units ++ [⟨t⟩] := by simp [close, air.aloft]
  simp only [accept, air.ran]
  refine ⟨⟨?_, air.replays, ?_, air.budget, air.reached, air.agreed⟩, air.stages, air.touched, rfl,
    ?_⟩
  · rw [air.accepted]
  · rw [closed]
    exact (air.composes.more [⟨t⟩]).snoc air.ran air.events air.dispatches entry
  · rw [closed]
    exact air.observer.close covers

/-- The unit in flight is extended by steps that apply. -/
theorem Airborne.extends (air : Airborne H clock obs pre pre' unit σ₁ t log s b) {steps : List Step}
    (ran : transact H clock steps σ₁ = (.ok (), ⟨σ₂, t'⟩, log'))
    (covers : obs.Covers s.units (some (t ++ t'))) :
    ∃ b', extendUnit H clock unit steps b
        = .ok (.ok { unit with steps := unit.steps ++ steps, events := unit.events ++ log'.events,
                               dispatches := unit.dispatches ++ log'.dispatches }, b') ∧
      Airborne H clock obs pre pre'
        { unit with steps := unit.steps ++ steps, events := unit.events ++ log'.events,
                    dispatches := unit.dispatches ++ log'.dispatches } σ₂ (t ++ t') (log ++ log')
        { s with flight := some (t ++ t') } b' := by
  obtain ⟨driven, flight⟩ := runSteps_inFlight pre' ran air.observer covers
  refine ⟨b.ran ⟨keep obs.substituted pre' σ₂, b.observer.advance t'⟩ (log'.cut obs.substituted),
    ?_, ?_⟩
  · rw [← air.stages] at driven
    simp only [extendUnit, driven, checkWitness, BlockRun.ran, flight.undiverged]
    rfl
  · exact { toBooks := air.carry _ _ _, ran := transact_append H clock air.ran ran,
            events := by rw [air.events, events_append],
            dispatches := by rw [air.dispatches, dispatches_append],
            entry := air.entry, stages := rfl,
            touched := by
              simp only [BlockRun.ran, air.touched, cut, touched_append,
                union_sdiff_distrib, union_assoc],
            aloft := rfl, observer := flight, spare := air.spare }

/-- A failing extension rolls the whole unit back. -/
theorem Airborne.rollsBack (atStart : AtBoundary H pre)
    (air : Airborne H clock obs pre pre' unit σ₁ t log s b) {steps : List Step} {reason : Error}
    (ran : transact H clock steps σ₁ = (.error reason, ⟨σ₂, t'⟩, log'))
    (covers : obs.Covers (s.units ++ [⟨t ++ t'⟩]) none) :
    ∃ b', extendUnit H clock unit steps b = .ok (.error reason.display, b') ∧
      Settled H clock obs pre pre'
        (record { s with flight := none } (t ++ t') [.unextended]) b' := by
  obtain ⟨driven, flight⟩ := runSteps_inFlight pre' ran air.observer covers.of_ended
  have stands := flight.close covers
  let b₁ := b.ran ⟨keep obs.substituted pre' σ₂, b.observer.advance t'⟩ (log'.cut obs.substituted)
  obtain ⟨frame, committed, registered⟩ :=
    air.composes.on_top (transact_append H clock air.ran ran)
  have composes : Composes H clock (s.units ++ [⟨t ++ t'⟩]) pre b₁.accepted s.stages s.touched :=
    air.accepted ▸ air.composes.more _
  have held : b₁.touched = (s.touched ∪ (log ++ log').touched) \ obs.substituted := by
    simp only [b₁, BlockRun.ran, air.touched, cut, touched_append, union_sdiff_distrib, union_assoc]
  obtain ⟨o, stands', isolated⟩ :=
    isolate_composes atStart frame committed registered composes rfl held stands
  refine ⟨{ b₁ with stages := keep obs.substituted pre' s.stages, observer := o,
                    touched := s.touched \ obs.substituted, replays := b₁.replays + 1 }, ?_,
    (air.carry none _ _).record rfl air.spare (by simp) (by simp [Rollback.reaches]) rfl rfl rfl rfl stands'⟩
  rw [← air.stages] at driven
  simp only [extendUnit, driven, checkWitness, BlockRun.ran, stands.undiverged]
  exact congrArg (Except.map _) isolated

end Airborne

variable {call : PreparedCall}

/-- A call's authority is decided alike, from the same reads. -/
theorem Settled.decides (settled : Settled H clock obs pre pre' s b)
    (spare : b.budgetExhausted = false) (ready : s.exhausted = false)
    {verdict : Except Error Verdict} (read : authorityOn H clock call s.stages = (verdict, t))
    (covers : obs.Covers (s.units ++ [⟨t⟩]) none) :
    ∃ b', Settled H clock obs pre pre' (s.record t []) b' ∧
      decideAuthority H clock call b = verdict.casesOn (fun e => .error (authorityFault e))
        (fun verdict => .ok (some verdict, b')) := by
  obtain ⟨-, opened⟩ := settled.observer.begin (shorter covers.of_ended)
  obtain ⟨fits, flight⟩ := opened.extend covers.of_ended
  have stands := flight.close covers
  obtain ⟨result, reads, -, direct, follows⟩ :=
    hostGuest_runs H clock (callAuthority H.wire call) s.stages
  obtain ⟨rfl, rfl⟩ : result = verdict ∧ reads = t := by
    simpa [authorityOn, direct] using read
  have sub := substituted_of_mode opened.mode
  have ran := follows (keep obs.substituted pre' s.stages) b.observer.beginUnit.2
    (by rw [sub]; exact agree_keep _ _ _) fits
  have ready : s.rollbacks.length ≤ maxBlockReplays := by simpa [exhausted] using ready
  refine ⟨{ b with observer := b.observer.beginUnit.2.advance reads },
    settled.record settled.landed ready (by simp) (by simp) rfl rfl settled.stages settled.touched
      stands, ?_⟩
  simp only [decideAuthority, spare, settled.stages, ran, checkWitness, stands.undiverged]
  cases result <;> rfl

/-! ## Lockstep -/

section Lockstep

variable (obs) (K : Nat)

/-- The observation source covers what has been attempted, and once the budget is used up nothing
but a last entry is missing of `K`. -/
def Recorded (s : Sequential C O) : Prop :=
  obs.Covers s.units s.flight ∧
    (obs ≠ .live → s.exhausted → s.flight = none → K ≤ s.units.length + 1)

/-- On a replay: a unit was left out, and not every unit that used up the budget is rolled back. -/
def Parted (s : Sequential C O) : Prop :=
  obs ≠ .live ∧ 0 < s.skipped ∧ ∃ r ∈ s.rollbacks, r.reaches obs.substituted = false

/-- At least `K` units were opened. -/
def Overrun (b : BlockRun C O) : Prop :=
  ∃ n, K ≤ n ∧ b.observer.fixed = (obs.mode, n, obs.held [])

variable {obs K} {b' : BlockRun C O}

theorem Observation.Covers.of_close {flight : Option (List Trace)}
    (covers : obs.Covers (units ++ flight.toList.map Observed.mk) none) :
    obs.Covers units flight := by
  cases flight with
  | none => simpa using covers
  | some t => exact covers.of_ended

theorem Recorded.of_close {s : Sequential C O} (recorded : Recorded obs K s.close) :
    Recorded obs K s := by
  refine ⟨recorded.1.of_close, fun replay exhausted landed => ?_⟩
  rw [close_of_none landed] at recorded
  exact recorded.2 replay exhausted landed

/-- While there is budget left, only coverage counts. -/
theorem recorded_of_ready {s : Sequential C O} (ready : s.exhausted = false)
    (covers : obs.Covers s.units s.flight) : Recorded obs K s :=
  ⟨covers, fun _ exhausted => by simp [ready] at exhausted⟩

/-- Rollbacks only grow, and so does the number of units left out. -/
theorem Parted.grow {s s' : Sequential C O} (parted : Parted obs s) (skipped : s.skipped ≤ s'.skipped)
    (rollbacks : s.rollbacks ⊆ s'.rollbacks) : Parted obs s' := by
  obtain ⟨replay, some, r, mem, passed⟩ := parted
  exact ⟨replay, lt_of_lt_of_le some skipped, r, rollbacks mem, passed⟩

theorem record_ahead {s : Sequential C O} (ready : s.exhausted = true → s.flight ≠ none)
    (t : List Trace) (rollbacks : List Rollback) :
    Ahead (Recorded obs K) (Parted obs) s (s.record t rollbacks) := by
  refine ⟨fun recorded => ⟨?_, fun _ exhausted landed => ?_⟩, fun parted => ?_⟩
  · have covers : obs.Covers (s.close.units ++ [⟨t⟩]) none := recorded.1
    exact covers.of_ended.settled.of_close
  · exact absurd landed (ready exhausted)
  · exact parted.grow (le_refl _) (subset_append_left _ _)

theorem skip_ahead (s : Sequential C O) :
    Ahead (Recorded obs K) (Parted obs) s { s with skipped := s.skipped + 1 } :=
  ⟨id, fun parted => parted.grow (le_succ _) (List.Subset.refl _)⟩

/-- No operation of the sequential runner takes back what it attempted. -/
theorem sequential_ahead : (sequential H clock).Moves (Ahead (Recorded obs K) (Parted obs)) where
  runUnit steps s := by
    simp only [sequential, Sequential.runUnit]
    split
    · exact .ok (skip_ahead s)
    rename_i ready
    split
    · refine .ok ⟨fun recorded => ?_, fun parted => parted⟩
      exact recorded_of_ready (by simpa using ready) recorded.1.settled.of_close
    · exact .ok (record_ahead (fun exhausted => absurd exhausted ready) _ _)
  extendUnit unit steps s := by
    simp only [sequential, Sequential.extendUnit]
    cases aloft : s.flight with
    | none => exact .ok ⟨id, id⟩
    | some t =>
      dsimp only
      obtain ⟨verdict, σ₂, log, t', runs⟩ := runSteps_runs H clock steps
        (transact H clock unit.steps s.stages).2.1.stages
      rw [runs.direct t]
      cases verdict with
      | ok _ =>
        refine .ok ⟨fun recorded => ⟨?_, fun _ _ landed => ?_⟩, fun parted => parted⟩
        · rw [aloft]; exact recorded.1.shorter
        · rw [aloft] at landed; cases landed
      | error reason =>
        refine .ok ⟨fun recorded => ⟨?_, fun _ _ landed => ?_⟩, fun parted => ?_⟩
        · have covers : obs.Covers (s.units ++ [] ++ [⟨t ++ t'⟩]) none := recorded.1
          rw [append_nil] at covers
          rw [aloft]; exact covers.of_ended.shorter
        · rw [aloft] at landed; cases landed
        · exact parted.grow (le_refl _) (subset_append_left _ _)
  authority call s := by
    simp only [sequential, Sequential.authority]
    split
    · exact .ok (skip_ahead s)
    rename_i ready
    split
    · exact .ok (record_ahead (fun exhausted => absurd exhausted ready) _ _)
    · exact .error _
  accept unit s := ⟨fun recorded => recorded.of_close, fun parted => parted⟩

/-! The host opens a unit per attempt, and never closes one again. -/

theorem replayAccepted_fixed (accepted : List AcceptedUnit) (b : BlockRun C O)
    {accepted' : List AcceptedUnit} (ended : replayAccepted H clock accepted b = .ok (accepted', b')) :
    b'.observer.fixed = b.observer.fixed := by
  induction accepted generalizing b accepted' with
  | nil => cases ended; rfl
  | cons unit accepted ih =>
    have ran := runSteps_keeps H clock watch_keeps_fixed unit.steps
      ⟨b.stages, b.observer.resume unit.entry⟩
    rw [fixed_resume] at ran
    obtain ⟨_, -, ended⟩ := bind_eq_ok.mp ended
    split at ended
    · cases ended
    · obtain ⟨⟨units, b₂⟩, replayed, ended⟩ := bind_eq_ok.mp ended
      cases ended
      exact (ih _ replayed).trans ran

theorem isolate_fixed {b : BlockRun C O} (ended : isolate H clock b = .ok b') :
    b'.observer.fixed = b.observer.fixed := by
  obtain ⟨⟨accepted, b₂⟩, replayed, ended⟩ := bind_eq_ok.mp ended
  cases ended
  have kept := replayAccepted_fixed _ _ replayed
  exact kept

/-- A unit attempted within the budget is opened. -/
theorem runUnit_fixed {steps : List Step} {b : BlockRun C O} {verdict : UnitVerdict}
    (spare : b.budgetExhausted = false) (ended : runUnit H clock steps b = .ok (verdict, b')) :
    b'.observer.fixed = b.observer.beginUnit.2.fixed := by
  have ran := runSteps_keeps H clock watch_keeps_fixed steps ⟨b.stages, b.observer.beginUnit.2⟩
  rw [← ran]
  simp only [runUnit, spare] at ended
  obtain ⟨_, -, ended⟩ := bind_eq_ok.mp ended
  split at ended
  · cases ended; rfl
  split at ended
  · obtain ⟨b₂, isolated, ended⟩ := bind_eq_ok.mp ended
    cases ended
    exact isolate_fixed isolated
  · cases ended; rfl

theorem extendUnit_fixed {unit : AcceptedUnit} {steps : List Step} {b : BlockRun C O}
    {extended : Except String AcceptedUnit}
    (ended : extendUnit H clock unit steps b = .ok (extended, b')) :
    b'.observer.fixed = b.observer.fixed := by
  have ran := runSteps_keeps H clock watch_keeps_fixed steps ⟨b.stages, b.observer⟩
  rw [← ran]
  obtain ⟨_, -, ended⟩ := bind_eq_ok.mp ended
  split at ended
  · cases ended; rfl
  · obtain ⟨b₂, isolated, ended⟩ := bind_eq_ok.mp ended
    cases ended
    exact isolate_fixed isolated

/-- An authority read within the budget is an entry of its own. -/
theorem decideAuthority_fixed {b : BlockRun C O} {verdict : Option Verdict}
    (spare : b.budgetExhausted = false) (ended : decideAuthority H clock call b = .ok (verdict, b'))
    :
    b'.observer.fixed = b.observer.beginUnit.2.fixed := by
  have ran := Prog.run_keeps
    (watch.observe (H.registry.hostAnswer b.stages clock.committed)) fixed
    (fun q o => watch_keeps_fixed.observe _ q o) (callAuthority H.wire call)
    b.observer.beginUnit.2
  rw [← ran]
  simp only [decideAuthority, spare] at ended
  obtain ⟨_, -, ended⟩ := bind_eq_ok.mp ended
  split at ended
  · cases ended; rfl
  · cases ended

theorem Overrun.grow {b : BlockRun C O} (overrun : Overrun obs K b)
    (more : b'.observer.fixed = b.observer.beginUnit.2.fixed) :
    Overrun obs K b' := by
  obtain ⟨n, enough, fixed⟩ := overrun
  exact ⟨n + 1, le_succ_of_le enough, by rw [more, fixed_beginUnit, fixed]⟩

/-- The host stays over. -/
theorem hostUnits_staysOver : (hostUnits H clock).Moves (StaysOff (Overrun obs K)) where
  runUnit steps b := by
    intro verdict b' ended overrun
    cases spare : b.budgetExhausted with
    | true =>
      simp only [hostUnits, runUnit, spare] at ended
      cases ended
      exact overrun
    | false => exact overrun.grow (runUnit_fixed spare ended)
  extendUnit unit steps b := by
    rintro extended b' ended ⟨n, enough, fixed⟩
    exact ⟨n, enough, (extendUnit_fixed ended).trans fixed⟩
  authority call b := by
    intro verdict b' ended overrun
    cases spare : b.budgetExhausted with
    | true =>
      simp only [hostUnits, decideAuthority, spare] at ended
      cases ended
      exact overrun
    | false => exact overrun.grow (decideAuthority_fixed spare ended)
  accept unit b := id

section

variable (settled : Settled H clock obs pre pre' s b)
include settled

/-- As long as the sequential block has budget left, so does the host. -/
theorem Settled.spare (ready : s.exhausted = false) : b.budgetExhausted = false := by
  have fewer := length_filter_le (·.reaches obs.substituted) s.rollbacks
  have ready : s.rollbacks.length ≤ maxBlockReplays := by simpa [exhausted] using ready
  simp only [budgetExhausted, settled.replays, decide_eq_false_iff_not]
  omega

/-- When the sequential block's budget is used up, the host's is too, unless it stands in for
modules and some rolled-back unit reached nothing else. -/
theorem Settled.exhausted (used : s.exhausted = true) :
    (b.budgetExhausted = true ∧ ∀ r ∈ s.rollbacks, r.reaches obs.substituted) ∨
      (b.budgetExhausted = false ∧ obs ≠ .live ∧
        ∃ r ∈ s.rollbacks, r.reaches obs.substituted = false) := by
  have overrun : maxBlockReplays < s.rollbacks.length := by simpa [Sequential.exhausted] using used
  have budget := settled.budget
  by_cases all : ∀ r ∈ s.rollbacks, r.reaches obs.substituted
  · refine .inl ⟨?_, all⟩
    simp only [budgetExhausted, settled.replays, filter_eq_self.mpr all]
    simpa using overrun
  · right
    obtain ⟨r, mem, passed⟩ : ∃ r ∈ s.rollbacks, r.reaches obs.substituted = false := by
      simpa using all
    refine ⟨?_, ?_, r, mem, passed⟩
    · have fewer : (s.rollbacks.filter (·.reaches obs.substituted)).length < s.rollbacks.length :=
        length_filter_lt_length_iff_exists.mpr ⟨r, mem, by simp [passed]⟩
      simp only [budgetExhausted, settled.replays, decide_eq_false_iff_not]
      omega
    · rintro rfl
      have reached := settled.reached r mem
      simp [Observation.substituted, reached] at passed

theorem Settled.skip (used : s.exhausted = true) (all : ∀ r ∈ s.rollbacks, r.reaches obs.substituted) :
    Settled H clock obs pre pre' { s with skipped := s.skipped + 1 } b :=
  ⟨⟨settled.accepted, settled.replays, settled.composes, settled.budget, settled.reached,
    fun _ => ⟨used, all⟩⟩, settled.stages, settled.touched, settled.landed, settled.observer⟩

/-- A host that opens a unit the sequential block left out holds one too many. -/
theorem Settled.overrun (used : s.exhausted = true) (replay : obs ≠ .live) (recorded : Recorded obs K s)
    (more : b'.observer.fixed = b.observer.beginUnit.2.fixed) :
    Overrun obs K b' := by
  refine ⟨s.units.length + 1, recorded.2 replay used settled.landed, ?_⟩
  obtain ⟨mode, -, attempted, -, held, -⟩ := settled.observer
  cases obs with
  | live => exact absurd rfl replay
  | journaled witness substitute =>
    rw [more, fixed_beginUnit, fixed, mode, attempted, held]
    rfl

end

variable (H clock obs pre' K) in
/-- **The host's runner follows the sequential one.** -/
theorem hostUnits_lockstep (atStart : AtBoundary H pre) :
    (sequential H clock).Lockstep (hostUnits H clock) (Settled H clock obs pre pre')
      (InAir H clock obs pre pre') (Recorded obs K) (Parted obs) (Overrun obs K) where
  ahead := sequential_ahead
  off := hostUnits_staysOver
  runUnit steps s b settled := by
    simp only [sequential, hostUnits, Sequential.runUnit]
    cases used : s.exhausted with
    | true =>
      intro recorded
      obtain ⟨spent, all⟩ | ⟨spare, replay, passed⟩ := settled.exhausted used
      · left
        refine ⟨b, ?_, settled.skip used all⟩
        simp only [runUnit, spent, if_true]
      · right
        refine ⟨⟨replay, succ_pos _, passed⟩, fun verdict b' ended => ?_⟩
        exact settled.overrun used replay recorded (runUnit_fixed spare ended)
    | false =>
      have spare := settled.spare used
      cases ran : transact H clock steps s.stages with
      | mk verdict rest =>
        obtain ⟨⟨σ₁, t⟩, log⟩ := rest
        cases verdict with
        | ok _ =>
          intro recorded
          have covers : obs.Covers s.units (some t) := by
            simpa [settled.landed] using recorded.1
          obtain ⟨b', ended, air⟩ := settled.accepts spare used ran covers
          left
          simp only [Sequential.close_of_none settled.landed]
          exact ⟨b', ended, σ₁, t, log, air⟩
        | error reason =>
          intro recorded
          have covers : obs.Covers (s.units ++ [⟨t⟩]) none := by
            simpa [Sequential.record, settled.landed] using recorded.1
          obtain ⟨b', ended, settled'⟩ := settled.rejects atStart spare used ran covers
          exact .inl ⟨b', ended, settled'⟩
  extendUnit unit steps s b inAir := by
    obtain ⟨σ₁, t, log, air⟩ := inAir
    simp only [sequential, Sequential.extendUnit, air.aloft, air.ran]
    cases ran : transact H clock steps σ₁ with
    | mk verdict rest =>
      obtain ⟨⟨σ₂, t'⟩, log'⟩ := rest
      rw [(transact_runs H clock ran).direct t]
      cases verdict with
      | ok _ =>
        intro recorded
        obtain ⟨b', ended, air'⟩ := air.extends ran recorded.1
        exact .inl ⟨b', ended, σ₂, t ++ t', log ++ log', air'⟩
      | error reason =>
        intro recorded
        have covers : obs.Covers (s.units ++ [⟨t ++ t'⟩]) none := by
          simpa [Sequential.record] using recorded.1
        obtain ⟨b', ended, settled'⟩ := air.rollsBack atStart ran covers
        exact .inl ⟨b', ended, settled'⟩
  authority call s b settled := by
    simp only [sequential, hostUnits, Sequential.authority]
    cases used : s.exhausted with
    | true =>
      intro recorded
      obtain ⟨spent, all⟩ | ⟨spare, replay, passed⟩ := settled.exhausted used
      · left
        refine ⟨b, ?_, settled.skip used all⟩
        simp only [decideAuthority, spent, if_true]
      · right
        refine ⟨⟨replay, succ_pos _, passed⟩, fun verdict b' ended => ?_⟩
        exact settled.overrun used replay recorded (decideAuthority_fixed spare ended)
    | false =>
      have spare := settled.spare used
      cases read : authorityOn H clock call s.stages with
      | mk verdict t =>
        cases verdict with
        | ok verdict =>
          intro recorded
          have covers : obs.Covers (s.units ++ [⟨t⟩]) none := by
            simpa [Sequential.record, settled.landed] using recorded.1
          obtain ⟨b', settled', ended⟩ := settled.decides spare used read covers
          exact .inl ⟨b', ended, settled'⟩
        | error e =>
          intro recorded _
          have covers : obs.Covers (s.units ++ [⟨t⟩]) none := by
            simpa [Sequential.record, settled.landed] using (recorded (s.record t [])).1
          obtain ⟨b', -, ended⟩ := settled.decides spare used read covers
          exact ended
  accept unit slot resolved s b inAir recorded := by
    obtain ⟨σ₁, t, log, air⟩ := inAir
    have covers : obs.Covers (s.units ++ [⟨t⟩]) none := by
      simpa [sequential, Sequential.accept, Sequential.close, air.aloft] using recorded.1
    exact air.accepts covers slot resolved

end Lockstep

end Refinement

end Ducktape
