import Mathlib.Data.List.TakeWhile
import Ducktape.Host.Tracking

/-! # Auditing a replay

An auditor stands beside the host's observer and notes, unit run by unit run, what the executed modules
really did: the reads they made with the answers they got, the dispatches that ran with their results,
and the dispatches that were reached but not run (`Made`). It changes nothing of the run
(`audited_simulates`), and it judges by itself what the observer should report: `Matches` says that what
a run did is, position by position, what the witness recorded, where a dispatch that was stood in
for passes over the reads recorded for it.

On a replay, as long as the observer reports no divergence, every closed run did exactly what the
witness holds for its entry and the open one is on its way through it (`Audited.Sound`). -/

namespace Ducktape

open Lib List Observing Trace

/-! ## What a run did -/

/-- One thing a unit's run did. -/
inductive Made
  /-- A read an executed dispatch made, with the answer it got. -/
  | read (read : Read)
  /-- A dispatch that ran, with its result. -/
  | ran (dispatched : Dispatched)
  /-- A dispatch that was reached but not run: its record stands in for it, or it was refused. -/
  | reached (module : ModuleId) (origin : Origin) (cause : Cause) (input : Input)
  deriving DecidableEq

/-- What a unit's run did is what a trace records, in order and in whole. -/
inductive Matches : List Made → List Trace → Prop
  | nil : Matches [] []
  | read (read : Read) {made : List Made} {trace : List Trace} (rest : Matches made trace) :
      Matches (.read read :: made) (.read read :: trace)
  | ran (dispatched : Dispatched) {made : List Made} {trace : List Trace} (rest : Matches made trace) :
      Matches (.ran dispatched :: made) (.dispatch dispatched :: trace)
  /-- The reads recorded for a dispatch that was stood in for are passed over. -/
  | reached (recorded : Dispatched) {reads : List Trace} (areReads : ∀ item ∈ reads, item.isRead)
      {made : List Made} {trace : List Trace} (rest : Matches made trace) :
      Matches (.reached recorded.module recorded.origin recorded.cause recorded.input :: made)
        (reads ++ .dispatch recorded :: trace)

theorem Matches.append {made made' : List Made} {trace trace' : List Trace} (first : Matches made trace)
    (rest : Matches made' trace') : Matches (made ++ made') (trace ++ trace') := by
  induction first with
  | nil => exact rest
  | read read _ ih => exact .read read ih
  | ran dispatched _ ih => exact .ran dispatched ih
  | reached recorded areReads _ ih =>
    rw [append_assoc]
    exact .reached recorded areReads ih

/-- One run of a unit: its entry in the witness, whether it re-ran an accepted unit, and what it
did. -/
structure UnitRun where
  entry : Nat
  rerun : Bool
  made : List Made
  deriving DecidableEq

/-- The trace a witness holds for an entry. -/
def Witness.entry (W : Witness) (i : Nat) : List Trace := ((W.units[i]?).map (·.trace)).getD []

/-- The run did what the witness holds for its entry. -/
def UnitRun.Exactly (W : Witness) (run : UnitRun) : Prop := Matches run.made (W.entry run.entry)

/-! ## The auditor -/

/-- The host's observer, with an auditor beside it. -/
structure Audited where
  observer : Observing
  closed : List UnitRun
  /-- The run in progress. -/
  current : Option UnitRun

namespace Audited

/-- All runs so far, in order. -/
def runs (a : Audited) : List UnitRun := a.closed ++ a.current.toList

/-- Nothing attempted yet. -/
def new (observation : Observation) : Audited := ⟨.new observation, [], none⟩

/-- The run in progress did one more thing. -/
def note (a : Audited) (item : Made) (observer : Observing) : Audited :=
  { a with observer := observer
           current := a.current.map fun run => { run with made := run.made ++ [item] } }

/-- A new run starts. -/
def start (a : Audited) (entry : Nat) (rerun : Bool) (observer : Observing) : Audited :=
  ⟨observer, a.runs, some ⟨entry, rerun, []⟩⟩

/-- `begin_unit`, audited. -/
def beginUnit (a : Audited) : Nat × Audited :=
  (a.observer.beginUnit.1, a.start a.observer.beginUnit.1 false a.observer.beginUnit.2)

/-- `resume`, audited. -/
def resume (a : Audited) (entry : Nat) : Audited := a.start entry true (a.observer.resume entry)

/-- What the drain sees: the observer's answers, with everything noted. -/
def watch : Watch Audited where
  plan a module origin cause input :=
    match a.observer.plan module origin cause input with
    | (.execute, observer) => (.execute, { a with observer := observer })
    | (plan, observer) => (plan, a.note (.reached module origin cause input) observer)
  observe live q a :=
    let (answer, observer) := Observing.observe live q a.observer
    (answer, a.note (.read (.ofAnswer q answer)) observer)
  recordDispatch dispatched a := a.note (.ran dispatched) (a.observer.recordDispatch dispatched)
  divergence a := a.observer.divergence

end Audited

/-! ## What the observer lets pass on a replay -/

namespace Observing

variable {o : Observing} {D : Finset ModuleId}

/-- The trace of an entry the observer holds. -/
def entry (o : Observing) (i : Nat) : List Trace := (Witness.mk o.units).entry i

/-- The observer after `count` more entries of the open unit. -/
def served (o : Observing) (entry next count : Nat) : Observing :=
  { o with opened := .unit entry (next + count) }

theorem fixed_eq_replay {n : Nat} {units : List Observed} :
    o.fixed = (.replay D, n, units) ↔ o.mode = .replay D ∧ o.attempted = n ∧ o.units = units := by
  obtain ⟨mode, held, attempted, opened, divergence⟩ := o
  cases mode <;> simp [fixed]

variable {o' : Observing}

theorem nextTrace_eq_ok {item : Trace} (next : o.nextTrace = (.ok item, o')) :
    ∃ entry at', o.opened = .unit entry at' ∧ (o.entry entry)[at']? = some item ∧
      o' = o.served entry at' 1 := by
  unfold nextTrace at next
  split at next
  · cases next
  rename_i entry at' opened
  split at next
  · cases next
  rename_i found
  split at next
  · cases next
  rename_i found'
  cases next
  refine ⟨entry, at', opened, ?_, rfl⟩
  simp [Observing.entry, Witness.entry, found, found']

theorem nextRead_eq_ok {read : Read} (next : o.nextRead = (.ok read, o')) :
    ∃ entry at', o.opened = .unit entry at' ∧ (o.entry entry)[at']? = some (.read read) ∧
      o' = o.served entry at' 1 := by
  unfold nextRead at next
  split at next
  · cases next
  · rename_i found
    cases next
    exact nextTrace_eq_ok found
  · cases next

/-- A read that passes is the next entry, answered as recorded. -/
theorem observe_passes (replay : o.mode = .replay D) (live : (q : Ask) → Answer q) (q : Ask)
    (undiverged : (observe live q o).2.divergence = none) :
    ∃ entry at', o.opened = .unit entry at' ∧
      (o.entry entry)[at']? = some (.read (.ofAnswer q (observe live q o).1)) ∧
      (observe live q o).2 = o.served entry at' 1 := by
  -- the two kinds of read differ in what they compare only
  cases q with
  | query target request | root target =>
    simp only [observe, observeQuery, observeRoot, replay] at undiverged ⊢
    split at undiverged
    · rename_i next
      split at undiverged
      · rename_i same
        obtain ⟨rfl, rfl⟩ := same
        obtain ⟨entry, at', opened, found, rfl⟩ := nextRead_eq_ok next
        refine ⟨entry, at', opened, ?_⟩
        simp only [if_true, and_true]
        exact found
      · exact absurd undiverged (diverge_ne_none _ _ _)
    · exact absurd undiverged (diverge_ne_none _ _ _)
    · exact absurd undiverged (diverge_ne_none _ _ _)

/-- A dispatch that ran and passes is the next entry. -/
theorem recordDispatch_passes (replay : o.mode = .replay D) (dispatched : Dispatched)
    (undiverged : (o.recordDispatch dispatched).divergence = none) :
    ∃ entry at', o.opened = .unit entry at' ∧ (o.entry entry)[at']? = some (.dispatch dispatched) ∧
      o.recordDispatch dispatched = o.served entry at' 1 := by
  simp only [recordDispatch, replay] at undiverged ⊢
  split at undiverged
  · rename_i next
    split at undiverged
    · rename_i same
      obtain rfl := same
      obtain ⟨entry, at', opened, found, rfl⟩ := nextTrace_eq_ok next
      refine ⟨entry, at', opened, found, ?_⟩
      simp only [if_true]
    · exact absurd undiverged (diverge_ne_none _ _ _)
  · exact absurd undiverged (diverge_ne_none _ _ _)
  · exact absurd undiverged (diverge_ne_none _ _ _)

theorem nextDispatch_eq_ok {recorded : Dispatched} (next : o.nextDispatch = (.ok recorded, o')) :
    ∃ entry at' reads rest, o.opened = .unit entry at' ∧ (∀ item ∈ reads, isRead item) ∧
      (o.entry entry).drop at' = reads ++ .dispatch recorded :: rest ∧
      o' = o.served entry at' (reads.length + 1) := by
  unfold nextDispatch at next
  split at next
  · cases next
  rename_i entry at' opened
  split at next
  · cases next
  rename_i unit found
  simp only at next
  split at next
  · rename_i found'
    cases next
    have whole : o.entry entry = unit.trace := by simp [Observing.entry, Witness.entry, found]
    have split := takeWhile_append_dropWhile (p := isRead) (l := unit.trace.drop at')
    generalize reads_eq : (unit.trace.drop at').takeWhile isRead = reads at found' split
    have here : (unit.trace.drop at')[reads.length]? = some (.dispatch recorded) := by
      rw [getElem?_drop]
      exact found'
    rw [← split] at here
    obtain ⟨rest, ahead⟩ : ∃ rest, (unit.trace.drop at').dropWhile isRead
        = .dispatch recorded :: rest := by
      cases eq : (unit.trace.drop at').dropWhile isRead with
      | nil => simp [eq] at here
      | cons item rest =>
        rw [eq] at here
        exact ⟨rest, by simpa using here⟩
    refine ⟨entry, at', reads, rest, opened, fun item mem => ?_, ?_, ?_⟩
    · rw [← reads_eq] at mem
      exact mem_takeWhile_imp mem
    · rw [whole, ← split, ahead]
    · simp only [served, Nat.add_assoc]
  · cases next

variable {module : ModuleId}

/-- A dispatch of a substituted module never runs. -/
theorem plan_inside (replay : o.mode = .replay D) (inside : module ∈ D) (origin : Origin)
    (cause : Cause) (input : Input) :
    (o.plan module origin cause input).1 ≠ .execute := by
  simp only [plan, replay, inside, not_true_eq_false, if_false]
  split
  · simp
  · split <;> simp

/-- A dispatch that is stood in for is the next one recorded. -/
theorem plan_passes (replay : o.mode = .replay D) (inside : module ∈ D) (origin : Origin)
    (cause : Cause) (input : Input)
    (undiverged : (o.plan module origin cause input).2.divergence = none) :
    ∃ entry at' reads recorded rest, o.opened = .unit entry at' ∧
      (∀ item ∈ reads, isRead item) ∧
      (o.entry entry).drop at' = reads ++ .dispatch recorded :: rest ∧
      (recorded.module = module ∧ recorded.origin = origin ∧ recorded.cause = cause ∧
        recorded.input = input) ∧
      o.plan module origin cause input = (.substitute recorded, o.served entry at' (reads.length + 1)) := by
  simp only [plan, replay, inside, not_true_eq_false, if_false] at undiverged ⊢
  split at undiverged
  · exact absurd undiverged (diverge_ne_none _ _ _)
  rename_i recorded o' next
  split at undiverged
  · rename_i same
    obtain ⟨entry, at', reads, rest, opened, areReads, ahead, rfl⟩ := nextDispatch_eq_ok next
    refine ⟨entry, at', reads, recorded, rest, opened, areReads, ahead, same, ?_⟩
    simp only [if_pos same]
  · exact absurd undiverged (diverge_ne_none _ _ _)

/-- A unit that closes without a departure was served its entry to the end. -/
theorem closeOpen_passes (replay : o.mode = .replay D) (undiverged : o.closeOpen.divergence = none) :
    o.closeOpen = o ∧ ∀ entry next, o.opened = .unit entry next → (o.entry entry).length ≤ next := by
  unfold closeOpen at undiverged ⊢
  rw [replay] at undiverged ⊢
  cases opened : o.opened with
  | unrecorded => exact ⟨rfl, fun _ _ eq => by cases eq⟩
  | unit entry next =>
    rw [opened] at undiverged
    simp only at undiverged ⊢
    cases found : o.units[entry]? with
    | none =>
      refine ⟨rfl, ?_⟩
      rintro _ _ ⟨⟩
      simp [Observing.entry, Witness.entry, found]
    | some unit =>
      rw [found] at undiverged
      simp only at undiverged ⊢
      cases ahead : unit.trace[next]? with
      | none =>
        refine ⟨rfl, ?_⟩
        rintro _ _ ⟨⟩
        simpa [Observing.entry, Witness.entry, found] using ahead
      | some unserved =>
        rw [ahead] at undiverged
        exact absurd undiverged (diverge_ne_none _ _ _)

end Observing

/-! ## The audit of a replay -/

namespace Audited

variable {W : Witness} {D : Finset ModuleId} {a : Audited}

/-- The run in progress is on its way through its entry. -/
def Along (W : Witness) (a : Audited) : Prop :=
  match a.current with
  | none => a.observer.opened = .unrecorded
  | some run => ∃ next, a.observer.opened = .unit run.entry next ∧
      Matches run.made ((W.entry run.entry).take next)

/-- The audit of a replay of `W`, as long as the observer reports no divergence. -/
structure Sound (W : Witness) (D : Finset ModuleId) (a : Audited) : Prop where
  mode : a.observer.mode = .replay D
  units : a.observer.units = W.units
  begun : (a.runs.filter (!·.rerun)).map (·.entry) = List.range a.observer.attempted
  closed : a.observer.divergence = none → ∀ run ∈ a.closed, run.Exactly W
  along : a.observer.divergence = none → a.Along W

theorem begun_note (a : Audited) (item : Made) (o : Observing) :
    ((a.note item o).runs.filter (!·.rerun)).map (·.entry) = (a.runs.filter (!·.rerun)).map (·.entry) := by
  obtain ⟨observer, closed, _ | ⟨entry, rerun, made⟩⟩ := a
  · rfl
  · cases rerun <;> simp [runs, note]

theorem Sound.fixed (sound : a.Sound W D) :
    a.observer.fixed = (.replay D, a.observer.attempted, W.units) :=
  fixed_eq_replay.mpr ⟨sound.mode, rfl, sound.units⟩

/-- One thing more is noted: either it is what the witness holds next, or the observer diverges. -/
theorem Sound.note (sound : a.Sound W D) (item : Made) {o : Observing}
    (fixed : o.fixed = a.observer.fixed)
    (passes : o.divergence = none → ∃ entry next count, a.observer.opened = .unit entry next ∧
      Matches [item] (((W.entry entry).drop next).take count) ∧ o = a.observer.served entry next count) :
    (a.note item o).Sound W D := by
  rw [sound.fixed, fixed_eq_replay] at fixed
  obtain ⟨mode, attempted, units⟩ := fixed
  refine ⟨mode, units, ?_, fun undiverged => ?_, fun undiverged => ?_⟩
  · rw [begun_note, sound.begun]
    exact congrArg range attempted.symm
  · obtain ⟨entry, next, count, -, -, rfl⟩ := passes undiverged
    exact sound.closed undiverged
  · obtain ⟨entry, next, count, opened, matched, rfl⟩ := passes undiverged
    have along := sound.along undiverged
    obtain ⟨observer, closed, _ | run⟩ := a
    · cases opened.symm.trans along
    obtain ⟨next', opened', before⟩ := along
    cases opened.symm.trans opened'
    refine ⟨next + count, rfl, ?_⟩
    rw [take_add]
    exact before.append matched

theorem Sound.entry (sound : a.Sound W D) (i : Nat) : a.observer.entry i = W.entry i := by
  rw [Observing.entry, sound.units]

/-- One item is matched by the entry found at its place. -/
theorem Sound.matches_one (sound : a.Sound W D) {entry next : Nat} {found : Trace} {item : Made}
    (here : (a.observer.entry entry)[next]? = some found) (same : Matches [item] [found]) :
    Matches [item] (((W.entry entry).drop next).take 1) := by
  rw [sound.entry] at here
  rw [take_one, head?_drop, here]
  exact same

/-- **The auditor changes nothing of a replay, and stays sound.** -/
theorem audited_simulates (W : Witness) (D : Finset ModuleId) :
    Watch.Simulates (fun (a : Audited) o => a.observer = o ∧ a.Sound W D) watch Observing.watch where
  plan := by
    rintro a _ ⟨rfl, sound⟩ module origin cause input
    have fixed := Observing.watch_keeps_fixed.plan a.observer module origin cause input
    simp only [watch, Observing.watch] at fixed ⊢
    by_cases inside : module ∈ D
    · -- a substitute: its record is consumed, or the observer diverges
      have noted := sound.note (.reached module origin cause input) fixed fun undiverged => by
        obtain ⟨entry, next, reads, recorded, rest, opened, areReads, ahead, ⟨rfl, rfl, rfl, rfl⟩, eq⟩ :=
          Observing.plan_passes sound.mode inside origin cause input undiverged
        refine ⟨entry, next, reads.length + 1, opened, ?_, by rw [eq]⟩
        have served : ((W.entry entry).drop next).take (reads.length + 1)
            = reads ++ [.dispatch recorded] := by
          rw [← sound.entry, ahead, List.take_append]
          simp
        rw [served]
        exact .reached recorded areReads .nil
      have run := Observing.plan_inside sound.mode inside origin cause input
      generalize a.observer.plan module origin cause input = planned at noted run
      obtain ⟨_ | recorded | reason, o⟩ := planned
      · exact absurd rfl run
      · exact ⟨rfl, rfl, noted⟩
      · exact ⟨rfl, rfl, noted⟩
    · have out : module ∉ a.observer.substituted := by simpa [Observing.substituted, sound.mode] using inside
      rw [Observing.plan_execute out]
      exact ⟨rfl, rfl, sound⟩
  observe := by
    rintro a _ ⟨rfl, sound⟩ live q
    refine ⟨rfl, rfl, sound.note _ (Observing.watch_keeps_fixed.observe live q a.observer) fun undiverged => ?_⟩
    obtain ⟨entry, next, opened, found, eq⟩ := Observing.observe_passes sound.mode live q undiverged
    exact ⟨entry, next, 1, opened, sound.matches_one found (.read _ .nil), eq⟩
  recordDispatch := by
    rintro a _ ⟨rfl, sound⟩ dispatched
    refine ⟨rfl, sound.note _ (Observing.watch_keeps_fixed.recordDispatch dispatched a.observer)
      fun undiverged => ?_⟩
    obtain ⟨entry, next, opened, found, eq⟩ :=
      Observing.recordDispatch_passes sound.mode dispatched undiverged
    exact ⟨entry, next, 1, opened, sound.matches_one found (.ran _ .nil), eq⟩
  divergence := by
    rintro a _ ⟨rfl, -⟩
    rfl

/-- Closing without a departure: every run so far did what the witness holds for its entry. -/
theorem Sound.closes (sound : a.Sound W D) (undiverged : a.observer.closeOpen.divergence = none) :
    ∀ run ∈ a.runs, run.Exactly W := by
  obtain ⟨same, through⟩ := closeOpen_passes sound.mode undiverged
  rw [same] at undiverged
  intro run mem
  rcases mem_append.mp mem with mem | mem
  · exact sound.closed undiverged run mem
  have along := sound.along undiverged
  rw [Along, Option.mem_toList.mp mem] at along
  obtain ⟨next, opened, matched⟩ := along
  rwa [take_of_length_le (sound.entry run.entry ▸ through _ _ opened)] at matched

/-- A new run starts at the beginning of its entry. -/
theorem Sound.start (sound : a.Sound W D) {entry : Nat} {rerun : Bool} {o : Observing}
    (mode : o.mode = .replay D) (units : o.units = W.units)
    (begun : o.attempted = if rerun then a.observer.attempted else a.observer.attempted + 1)
    (first : rerun = false → entry = a.observer.attempted) (opened : o.opened = .unit entry 0)
    (closes : o.divergence = a.observer.closeOpen.divergence) : (a.start entry rerun o).Sound W D where
  mode := mode
  units := units
  begun := by
    have split : ∀ run, (a.start entry rerun o).runs = a.runs ++ [run] →
        ((a.start entry rerun o).runs.filter (!·.rerun)).map (·.entry)
          = range a.observer.attempted ++ ([run].filter (!·.rerun)).map (·.entry) := by
      intro run eq
      rw [eq, filter_append, map_append, sound.begun]
    rw [split ⟨entry, rerun, []⟩ rfl]
    cases rerun with
    | true => simp [Audited.start, begun]
    | false => simp [Audited.start, begun, first rfl, range_succ]
  closed undiverged := sound.closes (closes ▸ undiverged)
  along _ := ⟨0, opened, Matches.nil⟩

theorem Sound.beginUnit (sound : a.Sound W D) : a.beginUnit.2.Sound W D := by
  have fixed := a.observer.fixed_beginUnit
  rw [sound.fixed, fixed_eq_replay] at fixed
  obtain ⟨mode, attempted, units⟩ := fixed
  have entry : a.observer.closeOpen.attempted = a.observer.attempted :=
    congrArg (·.2.1) a.observer.fixed_closeOpen
  exact sound.start mode units attempted (fun _ => entry) rfl rfl

theorem Sound.resume (sound : a.Sound W D) (entry : Nat) : (a.resume entry).Sound W D := by
  have fixed := a.observer.fixed_resume entry
  rw [sound.fixed, fixed_eq_replay] at fixed
  obtain ⟨mode, attempted, units⟩ := fixed
  refine sound.start mode units attempted (fun first => by cases first) ?_ rfl
  have replay : a.observer.closeOpen.mode = .replay D :=
    (congrArg Prod.fst a.observer.fixed_closeOpen).trans sound.mode
  simp only [Observing.resume, replay]

theorem Sound.new (W : Witness) (D : Finset ModuleId) : (Audited.new (.journaled W D)).Sound W D :=
  ⟨rfl, rfl, rfl, fun _ run mem => (by cases mem), fun _ => rfl⟩

/-- **A replay that finishes consumed the witness in full**, and returns it. -/
theorem Sound.finish (sound : a.Sound W D) {witness : Witness} (ended : a.observer.finish = .ok witness) :
    witness = W ∧ (∀ run ∈ a.runs, run.Exactly W) ∧
      (a.runs.filter (!·.rerun)).map (·.entry) = range W.units.length := by
  have fixed := a.observer.fixed_closeOpen
  rw [sound.fixed, fixed_eq_replay] at fixed
  obtain ⟨mode, attempted, units⟩ := fixed
  simp only [Observing.finish, mode, attempted, units] at ended
  by_cases whole : a.observer.attempted = W.units.length
  · simp only [whole, ne_eq] at ended
    split at ended
    · cases ended
    rename_i undiverged
    cases ended
    exact ⟨congrArg Witness.mk units, sound.closes undiverged, whole ▸ sound.begun⟩
  · simp only [whole, ne_eq] at ended
    split at ended
    · cases ended
    · rename_i undiverged
      exact absurd undiverged (diverge_ne_none _ _ _)

end Audited

end Ducktape
