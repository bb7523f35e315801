import Ducktape.Host.Boundary
import Ducktape.Host.Slots

/-! # Per-unit isolation is sequential composition

On the live path the host's blocks are sequential: `runUnits_live` transfers a block's units to the
sequential runner, `Units.recording` keeps every attempt the host makes, and `Asked.Direct` says an
attempt ended as it does when run directly on top of the units accepted before it. `applyBlock_settles`
assembles what a block that returns comes to: its committed states, its attempts, its traces, and
what it reports once the replay budget is used up. -/

namespace Ducktape

open Lib Sequential List

/-! ## The live path -/

variable {admission : Admission} {ops : List BlockOp}

section Live

variable {C O : Type} {H : Host C O} {clock : BlockClock} {pre : Stages C O}

theorem recorded_live (K : Nat) (s : Sequential C O) : Recorded .live K s :=
  ⟨trivial, fun live => absurd rfl live⟩

theorem not_parted_live (s : Sequential C O) : ¬ Parted .live s := fun parted => parted.1 rfl

/-- A block that has not begun. -/
def BlockRun.start (pre : Stages C O) (observation : Observation) : BlockRun C O :=
  ⟨pre, .new observation, ∅, [], 0⟩

/-- Before its first unit the host is settled. -/
theorem settled_start (H : Host C O) (clock : BlockClock) (obs : Observation) (pre pre' : Stages C O)
    (agree : Agree obs.substituted pre' pre) :
    Settled H clock obs pre pre' (.start pre) (.start pre' obs) := by
  refine ⟨⟨rfl, rfl, .nil pre, Nat.zero_le _, by simp [start],
    fun skipped => absurd skipped (Nat.lt_irrefl 0)⟩, agree.keep_eq.symm, ?_, rfl, ?_⟩
  · exact (Finset.empty_sdiff _).symm
  · cases obs with
    | live => exact ⟨rfl, rfl, rfl, rfl, rfl, trivial⟩
    | journaled witness substitute => exact ⟨rfl, rfl, rfl, rfl, rfl, nil_prefix⟩

theorem sequential_appends : (sequential H clock).Appends Sequential.accepted where
  runUnit steps s := by
    simp only [sequential, Sequential.runUnit]
    split
    · exact .ok rfl
    · split <;> exact .ok rfl
  extendUnit unit steps s := by
    simp only [sequential, Sequential.extendUnit]
    split
    · exact .ok rfl
    · split <;> exact .ok rfl
  authority call s := by
    simp only [sequential, Sequential.authority]
    split
    · exact .ok rfl
    · split
      · exact .ok rfl
      · exact .error _
  accept unit s := rfl

/-- **The units of a live block are sequential.** -/
theorem runUnits_live (atStart : AtBoundary H pre) (wire : Wire) {prepared : PreparedWork}
    {tables : Tables} {b : BlockRun C O}
    (ended : runUnits (hostUnits H clock) wire admission ops prepared (.start pre .live)
      = .ok (tables, b)) :
    ∃ s, runUnits (sequential H clock) wire admission ops prepared (.start pre) = .ok (tables, s) ∧
      Settled H clock .live pre pre s b := by
  have tracks := runUnits_tracks (hostUnits_lockstep H clock .live pre 0 atStart) wire admission ops
    prepared (start pre) (BlockRun.start pre .live)
  exact (tracks.follows (settled_start H clock .live pre pre (.refl _ _))).of_ok (recorded_live 0)
    not_parted_live ended

end Live

/-! ## Every attempt of a block -/

/-- One thing a block asked of its runner, with the units accepted before it. -/
inductive Asked
  | unit (before : List AcceptedUnit) (steps : List Step) (verdict : UnitVerdict)
  | extension (before : List AcceptedUnit) (unit : AcceptedUnit) (steps : List Step)
      (verdict : Except String AcceptedUnit)
  | authority (before : List AcceptedUnit) (call : PreparedCall) (verdict : Option Verdict)

/-- A runner that also keeps what it was asked. -/
def Units.recording {β : Type} (U : Units β) (acc : β → List AcceptedUnit) :
    Units (β × List Asked) where
  runUnit steps p := do
    let (verdict, b) ← U.runUnit steps p.1
    .ok (verdict, (b, p.2 ++ [.unit (acc p.1) steps verdict]))
  extendUnit unit steps p := do
    let (verdict, b) ← U.extendUnit unit steps p.1
    .ok (verdict, (b, p.2 ++ [.extension (acc p.1) unit steps verdict]))
  authority call p := do
    let (verdict, b) ← U.authority call p.1
    .ok (verdict, (b, p.2 ++ [.authority (acc p.1) call verdict]))
  accept unit p := (U.accept unit p.1, p.2)

section Recording

variable {γ β : Type} {U : Units γ} {V : Units β} {rel : γ → β → Prop}
  {flight : AcceptedUnit → γ → β → Prop} {Good Apart : γ → Prop} {Off : β → Prop}

variable {Sound : Asked → Prop}

/-- A sound entry recorded of what a run returns. -/
theorem exists_recorded {α : Type} {x : Except SubmitError (α × β)} {history : List Asked}
    (sound : ∀ a ∈ history, Sound a) {entry : α → Asked} {v : α} {b : β} (ended : x = .ok (v, b))
    (recorded : Sound (entry v)) :
    ∃ p : β × List Asked, (x >>= fun r => .ok (r.1, (r.2, history ++ [entry r.1]))) = .ok (v, p) ∧
      p.1 = b ∧ ∀ a ∈ p.2, Sound a := by
  subst ended
  refine ⟨(b, history ++ [entry v]), rfl, rfl, fun a mem => ?_⟩
  rcases mem_append.mp mem with mem | mem
  · exact sound a mem
  · rw [mem_singleton.mp mem]
    exact recorded

/-- Recording changes nothing of a run; where the runner follows another one throughout, it records sound
entries only. -/
theorem Units.Lockstep.recording (lock : U.Lockstep V rel flight Good Apart Off)
    (good : ∀ c, Good c) (together : ∀ c, ¬ Apart c) {acc : β → List AcceptedUnit}
    (unit : ∀ steps c b verdict c', rel c b → U.runUnit steps c = .ok (verdict, c') →
      Sound (.unit (acc b) steps verdict)) (extension : ∀ u steps c b verdict c', flight u c b →
      U.extendUnit u steps c = .ok (verdict, c') → Sound (.extension (acc b) u steps verdict))
    (authority : ∀ call c b verdict c', rel c b → U.authority call c = .ok (verdict, c') →
      Sound (.authority (acc b) call verdict)) :
    V.Related (V.recording acc) Carries (fun b p => p.1 = b ∧ (∃ c, rel c b) ∧ ∀ a ∈ p.2, Sound a)
      (fun u b p => p.1 = b ∧ (∃ c, flight u c b) ∧ ∀ a ∈ p.2, Sound a) where
  runUnit steps b p := by
    rintro ⟨rfl, ⟨c, related⟩, sound⟩ verdict b' ended
    obtain ⟨c', ran, related'⟩ := (lock.runUnit steps c p.1 related).of_ok good together ended
    obtain ⟨p', recorded, rfl, sound'⟩ :=
      exists_recorded sound ended (unit steps c p.1 verdict c' related ran)
    exact ⟨p', recorded, by cases verdict <;> exact ⟨rfl, ⟨c', related'⟩, sound'⟩⟩
  extendUnit u steps b p := by
    rintro ⟨rfl, ⟨c, related⟩, sound⟩ verdict b' ended
    obtain ⟨c', ran, related'⟩ := (lock.extendUnit u steps c p.1 related).of_ok good together ended
    obtain ⟨p', recorded, rfl, sound'⟩ :=
      exists_recorded sound ended (extension u steps c p.1 verdict c' related ran)
    exact ⟨p', recorded, by cases verdict <;> exact ⟨rfl, ⟨c', related'⟩, sound'⟩⟩
  authority call b p := by
    rintro ⟨rfl, ⟨c, related⟩, sound⟩ verdict b' ended
    obtain ⟨c', ran, related'⟩ := (lock.authority call c p.1 related).of_ok good together ended
    obtain ⟨p', recorded, rfl, sound'⟩ :=
      exists_recorded sound ended (authority call c p.1 verdict c' related ran)
    exact ⟨p', recorded, rfl, ⟨c', related'⟩, sound'⟩
  accept u slot resolved record b p := by
    rintro ⟨rfl, ⟨c, related⟩, sound⟩ _ _ ended
    cases ended
    exact ⟨_, rfl, rfl, ⟨_, lock.accept u slot resolved c p.1 related (good _)⟩, sound⟩

end Recording

section Direct

variable {C O : Type} (H : Host C O) (clock : BlockClock) (pre : Stages C O)

/-- The stages the steps of `accepted` units leave, run one after another. -/
def stagesAfter (accepted : List AcceptedUnit) : Stages C O :=
  (transact H clock (accepted.flatMap (·.steps)) pre).2.1.stages

/-- A unit that ran `steps` kept what they add. -/
def AcceptedUnit.Keeps (unit : AcceptedUnit) (steps : List Step) (log : Log) : Prop :=
  unit.steps = steps ∧ unit.events = log.events ∧ unit.dispatches = log.dispatches

/-- The block was answered what it would have been on top of the units accepted before alone. -/
def Asked.Direct : Asked → Prop
  | .unit before steps verdict =>
    let ran := transact H clock steps (stagesAfter H clock pre before)
    match verdict with
    | .accepted kept => ran.1 = .ok () ∧ kept.Keeps steps ran.2.2
    | .rejected reason => ran.1 = .error reason
    | .unattempted => True
  | .extension before inFlight steps verdict =>
    let ran := transact H clock (inFlight.steps ++ steps) (stagesAfter H clock pre before)
    match verdict with
    | .ok extended => ran.1 = .ok () ∧ extended.Keeps (inFlight.steps ++ steps) ran.2.2
    | .error reason => ∃ e, ran.1 = .error e ∧ reason = e.display
  | .authority before call verdict =>
    match verdict with
    | some verdict =>
      (authorityOn H clock call (stagesAfter H clock pre before)).1 = .ok verdict
    | none => True

variable {H clock pre} {s : Sequential C O} {b : BlockRun C O} {obs : Observation}
  {pre' : Stages C O}

theorem Books.stagesAfter (books : Books H clock obs pre s b) :
    stagesAfter H clock pre b.accepted = s.stages := by
  obtain ⟨trace, log, ran, -⟩ := books.composes.transact_flatMap
  rw [Ducktape.stagesAfter, books.accepted, ran]

variable {s' : Sequential C O} {steps : List Step}

/-- What the sequential runner answers is direct. -/
theorem runUnit_direct {verdict : UnitVerdict} (settled : Settled H clock obs pre pre' s b)
    (ended : Sequential.runUnit H clock steps s = .ok (verdict, s')) :
    Asked.Direct H clock pre (.unit b.accepted steps verdict) := by
  simp only [Asked.Direct, settled.stagesAfter]
  simp only [Sequential.runUnit] at ended
  split at ended
  · cases ended; trivial
  · split at ended <;> rename_i ran <;> cases ended <;> rw [ran]
    · exact ⟨rfl, rfl, rfl, rfl⟩

theorem extendUnit_direct {unit : AcceptedUnit} {verdict : Except String AcceptedUnit}
    (inAir : InAir H clock obs pre pre' unit s b)
    (ended : Sequential.extendUnit H clock unit steps s = .ok (verdict, s')) :
    Asked.Direct H clock pre (.extension b.accepted unit steps verdict) := by
  obtain ⟨σ₁, t, log, air⟩ := inAir
  simp only [Asked.Direct, air.stagesAfter]
  simp only [Sequential.extendUnit, air.aloft, air.ran] at ended
  cases ran : transact H clock steps σ₁ with
  | mk result rest =>
    have whole := transact_append H clock air.ran ran
    rw [(transact_runs H clock ran).direct t] at ended
    rw [whole]
    cases result with
    | ok _ =>
      cases ended
      exact ⟨rfl, rfl, by rw [air.events]; rfl, by rw [air.dispatches]; rfl⟩
    | error reason =>
      cases ended
      exact ⟨reason, rfl, rfl⟩

theorem authority_direct {call : PreparedCall} {verdict : Option Verdict}
    (settled : Settled H clock obs pre pre' s b)
    (ended : authority H clock call s = .ok (verdict, s')) :
    Asked.Direct H clock pre (.authority b.accepted call verdict) := by
  simp only [Asked.Direct, settled.stagesAfter]
  simp only [authority] at ended
  split at ended
  · cases ended; trivial
  · split at ended <;> rename_i read <;> cases ended
    rw [read]

/-- **Every attempt of a live block is answered directly**, and recording it changes nothing. -/
theorem runUnits_recording (atStart : AtBoundary H pre) (wire : Wire) {prepared : PreparedWork}
    {tables : Tables} {b : BlockRun C O}
    (ended : runUnits (hostUnits H clock) wire admission ops prepared (.start pre .live)
      = .ok (tables, b)) :
    ∃ history, runUnits ((hostUnits H clock).recording BlockRun.accepted) wire admission ops prepared
        (.start pre .live, []) = .ok (tables, (b, history)) ∧
      ∀ asked ∈ history, asked.Direct H clock pre := by
  have recording := (hostUnits_lockstep H clock .live pre 0 atStart).recording (recorded_live 0) not_parted_live
    (fun _ _ _ _ _ settled ended => runUnit_direct settled ended)
    (fun _ _ _ _ _ _ inAir ended => extendUnit_direct inAir ended)
    (fun _ _ _ _ _ settled ended => authority_direct settled ended)
  obtain ⟨⟨_, history⟩, recorded, rfl, -, direct⟩ := runUnits_related Carries.composes recording wire
    admission (fun _ _ _ _ _ _ _ ended => nomatch ended) ops prepared (.start pre .live)
    (.start pre .live, []) ⟨rfl, ⟨_, settled_start H clock .live pre pre (.refl _ _)⟩, by simp⟩ tables b ended
  exact ⟨history, recorded, direct⟩

end Direct

/-! ## A used-up replay budget -/

section Spent

variable {β : Type} {U : Units β} {b b₁ : β}

/-- The runner attempts nothing any more. -/
structure Units.Spent (U : Units β) (b : β) : Prop where
  runUnit : ∀ steps, U.runUnit steps b = .ok (.unattempted, b)
  authority : ∀ call, U.authority call b = .ok (none, b)

theorem hostUnits_spent {C O : Type} {H : Host C O} {clock : BlockClock} {b : BlockRun C O}
    (exhausted : b.budgetExhausted = true) : (hostUnits H clock).Spent b :=
  ⟨fun steps => by simp only [hostUnits, runUnit, exhausted, if_true],
    fun call => by simp only [hostUnits, decideAuthority, exhausted, if_true]⟩

/-- The turns left when nothing is attempted any more each report `report`. -/
theorem runTurns_spent {ι ρ : Type} {turn : Nat → ι → β → Except SubmitError (Option ρ × β)}
    {report : ι → ρ} (each : ∀ i item, turn i item b = .ok (some (report item), b)) (i : Nat)
    (items : List ι) (table : Table ρ) :
    ∃ table', runTurns turn i items table b = .ok (table', b) ∧ (∀ k < i, table' k = table k) ∧
      ∀ k item, items[k]? = some item → table' (i + k) = some (report item) := by
  induction items generalizing i table with
  | nil => exact ⟨table, rfl, fun _ _ => rfl, by simp⟩
  | cons item items ih =>
    obtain ⟨table', ran, before, after⟩ := ih (i + 1) (Function.update table i (some (report item)))
    refine ⟨table', ?_, fun k lt => ?_, fun k item' found => ?_⟩
    · rw [runTurns, each]
      exact ran
    · rw [before k (by omega), Function.update_of_ne (by omega)]
    · cases k with
      | zero =>
        have same : item = item' := by simpa using found
        rw [Nat.add_zero, before i (by omega), Function.update_self, same]
      | succ k =>
        have := after k item' found
        rwa [show i + (k + 1) = i + 1 + k by omega]

theorem runTurns_append {ι ρ : Type} (turn : Nat → ι → β → Except SubmitError (Option ρ × β)) (i : Nat)
    (first second : List ι) (table : Table ρ) (b : β) :
    runTurns turn i (first ++ second) table b
      = runTurns turn i first table b >>= fun r =>
          runTurns turn (i + first.length) second r.1 r.2 := by
  induction first generalizing i table b with
  | nil => rfl
  | cons item first ih =>
    simp only [cons_append, runTurns, length_cons]
    cases turn i item b with
    | error e => rfl
    | ok done =>
      simp only [bind, Except.bind] at ih ⊢
      rw [ih, show i + 1 + first.length = i + (first.length + 1) by omega]

/-- One phase of a block, cut after `n` turns: if any were left, the budget was used up by then. -/
theorem runTurns_cut {ι ρ : Type} {turn : Nat → ι → β → Except SubmitError (Option ρ × β)}
    {report : ι → ρ} (each : ∀ i item, turn i item b₁ = .ok (some (report item), b₁)) {n : Nat}
    {items : List ι} {table : Table ρ} {b' : β}
    (first : runTurns turn 0 (items.take n) (fun _ => none) b = .ok (table, b'))
    (stops : n < items.length → b' = b₁) :
    ∃ table', runTurns turn 0 items (fun _ => none) b = .ok (table', b') ∧
      ∀ k item, n ≤ k → items[k]? = some item → table' k = some (report item) := by
  by_cases early : n < items.length
  swap
  · rw [take_of_length_le (by omega)] at first
    refine ⟨table, first, fun k item low found => ?_⟩
    have lt := (List.getElem?_eq_some_iff.mp found).1
    omega
  obtain rfl := stops early
  obtain ⟨table', ran, -, after⟩ := runTurns_spent each (0 + (items.take n).length) (items.drop n) table
  refine ⟨table', ?_, fun k item low found => ?_⟩
  · have split := runTurns_append turn 0 (items.take n) (items.drop n) (fun _ => none) b
    rw [take_append_drop, first] at split
    exact split.trans ran
  · have length : (items.take n).length = n := by rw [length_take]; omega
    have := after (k - n) item (by rw [getElem?_drop, Nat.add_sub_cancel' low]; exact found)
    rwa [length, Nat.zero_add, Nat.add_sub_cancel' low] at this

/-- The first `m` members, `c` calls and `d` deliveries are where a block can be cut. -/
def IsCut (ops : List BlockOp) (prepared : PreparedWork) (m c d : Nat) : Prop :=
  (m < ops.length → c = 0 ∧ d = 0) ∧ (c < prepared.calls.length → d = 0)

/-- The prepared work of a block cut after `c` calls and `d` deliveries. -/
def PreparedWork.cut (prepared : PreparedWork) (c d : Nat) : PreparedWork :=
  { prepared with calls := prepared.calls.take c, deliveries := prepared.deliveries.take d }

/-- What a block's tables hold of the units past a cut: each was left out for the used-up budget. -/
structure LeftOut (ops : List BlockOp) (prepared : PreparedWork) (m c d : Nat)
    (members : Nat → Option MemberOutcome) (calls : Nat → Option CallRecord)
    (deliveries : Nat → Option DeliveryRecord) : Prop where
  members : ∀ k op, m ≤ k → ops[k]? = some op → members k = some (.rejected replayBudgetReason)
  calls : ∀ k call, c ≤ k → prepared.calls[k]? = some call →
    calls k = some (callNotFinalized call replayBudgetReason)
  deliveries : ∀ k delivery, d ≤ k → prepared.deliveries[k]? = some delivery →
    deliveries k = some (deliveryNotFinalized delivery replayBudgetReason)

theorem memberTurn_spent (spent : U.Spent b) (admission : Admission) (i : Nat) (op : BlockOp) :
    memberTurn U admission i op b = .ok (some (.rejected replayBudgetReason), b) := by
  rw [memberTurn, spent.runUnit]
  rfl

theorem callTurn_spent (spent : U.Spent b) (wire : Wire) (i : Nat) (call : PreparedCall) :
    callTurn U wire i call b = .ok (some (callNotFinalized call replayBudgetReason), b) := by
  rw [callTurn, spent.authority]
  rfl

theorem runDelivery_spent (spent : U.Spent b) (i : Nat) (delivery : PreparedDelivery) :
    runDelivery U i delivery b
      = .ok (some (deliveryNotFinalized delivery replayBudgetReason), b) := by
  rw [runDelivery, spent.runUnit]
  rfl

/-- **Once the budget is used up nothing more is attempted**, and every unit left out is reported. -/
theorem runUnits_cut (wire : Wire) {prepared : PreparedWork} {m c d : Nat}
    (cut : IsCut ops prepared m c d) {tables : Tables}
    (first : runUnits U wire admission (ops.take m) (prepared.cut c d) b = .ok (tables, b₁))
    (spent : U.Spent b₁) :
    ∃ tables', runUnits U wire admission ops prepared b = .ok (tables', b₁) ∧
      LeftOut ops prepared m c d tables'.members tables'.calls tables'.deliveries := by
  obtain ⟨⟨members, b₂⟩, ranMembers, first⟩ := bind_eq_ok.mp first
  obtain ⟨⟨calls, b₃⟩, ranCalls, first⟩ := bind_eq_ok.mp first
  obtain ⟨⟨deliveries, b₄⟩, ranDeliveries, first⟩ := bind_eq_ok.mp first
  cases first
  -- a phase the cut lies before has not begun
  have unbegun : ∀ {ι ρ : Type} {turn : Nat → ι → β → Except SubmitError (Option ρ × β)}
      {items : List ι} {table : Table ρ} {s s' : β} {n : Nat}, n = 0 →
      runTurns turn 0 (items.take n) (fun _ => none) s = .ok (table, s') → s' = s := by
    rintro ι ρ turn items table s s' n rfl ran
    cases ran
    rfl
  obtain ⟨members', ran, atMembers⟩ := runTurns_cut (memberTurn_spent spent admission) ranMembers fun early => by
    obtain ⟨noCalls, noDeliveries⟩ := cut.1 early
    rw [unbegun noDeliveries ranDeliveries, unbegun noCalls ranCalls]
  obtain ⟨calls', ran', atCalls⟩ := runTurns_cut (callTurn_spent spent wire) ranCalls fun early =>
    (unbegun (cut.2 early) ranDeliveries).symm
  obtain ⟨deliveries', ran'', atDeliveries⟩ :=
    runTurns_cut (runDelivery_spent spent) ranDeliveries fun _ => rfl
  refine ⟨⟨members', calls', deliveries'⟩, ?_, atMembers, atCalls, atDeliveries⟩
  simp only [runUnits, ran, ran', ran'', bind, Except.bind]

end Spent

/-! ## A block that returns -/

/-- Where the dispatch records of an outcome come from: a unit accepted for their slot. -/
structure TracesOf (accepted : List AcceptedUnit) (outcome : BatchOutcome) : Prop where
  members : ∀ k dispatches, outcome.members[k]? = some (.applied dispatches) →
    ∃ unit ∈ accepted, unit.slot = .member k ∧ unit.dispatches = dispatches
  calls : ∀ k record, outcome.calls[k]? = some record → record.dispatches = [] ∨
    ∃ unit ∈ accepted, unit.slot = .call k ∧ unit.dispatches = record.dispatches
  deliveries : ∀ k record, outcome.deliveries[k]? = some record → record.dispatches = [] ∨
    ∃ unit ∈ accepted, unit.slot = .delivery k ∧ unit.dispatches = record.dispatches

section Outcome

variable {ops : List BlockOp} {prepared : PreparedWork} {tables : Tables}
  {accepted : List AcceptedUnit} (landed : BlockLanded ops prepared tables accepted) {k : Nat}
include landed

/-- A member's slot in the end: its record, or the trace of its unit. -/
theorem BlockLanded.member (lt : k < ops.length) :
    (∃ r, tables.members k = some r ∧ (fillSlots prepared tables accepted).members k = some r) ∨
      ∃ unit ∈ accepted, unit.slot = .member k ∧
        (fillSlots prepared tables accepted).members k = some (.applied unit.dispatches) := by
  refine (SlotTable.members.filled landed.ordered (landed.members k lt)).imp id ?_
  rintro ⟨unit, mem, ⟨at_k, resolved⟩, before, filled⟩
  refine ⟨unit, mem, at_k, filled.trans ?_⟩
  simp [SlotTable.members, fillSlot, at_k, show unit.resolved = .member from resolved]

theorem BlockLanded.call {call : PreparedCall} (found : prepared.calls[k]? = some call) :
    (∃ r, tables.calls k = some r ∧ (fillSlots prepared tables accepted).calls k = some r) ∨
      ∃ unit ∈ accepted, unit.slot = .call k ∧ ∃ disposition, unit.resolved = .call disposition ∧
        (fillSlots prepared tables accepted).calls k
          = some (callRecordOf call disposition unit) := by
  have lt := (List.getElem?_eq_some_iff.mp found).1
  refine (SlotTable.calls.filled landed.ordered (landed.calls k lt)).imp id ?_
  rintro ⟨unit, mem, ⟨at_k, disposition, resolved⟩, before, filled⟩
  refine ⟨unit, mem, at_k, disposition, resolved, filled.trans ?_⟩
  simp [SlotTable.calls, fillSlot, at_k, resolved, found, callRecordOf]

theorem BlockLanded.delivery {delivery : PreparedDelivery}
    (found : prepared.deliveries[k]? = some delivery) :
    (∃ r, tables.deliveries k = some r ∧
        (fillSlots prepared tables accepted).deliveries k = some r) ∨
      ∃ unit ∈ accepted, unit.slot = .delivery k ∧
        ∃ disposition, unit.resolved = .delivery disposition ∧
          (fillSlots prepared tables accepted).deliveries k
            = some (deliveryRecordOf delivery disposition unit) := by
  have lt := (List.getElem?_eq_some_iff.mp found).1
  refine (SlotTable.deliveries.filled landed.ordered (landed.deliveries k lt)).imp id ?_
  rintro ⟨unit, mem, ⟨at_k, disposition, resolved⟩, before, filled⟩
  refine ⟨unit, mem, at_k, disposition, resolved, filled.trans ?_⟩
  simp [SlotTable.deliveries, fillSlot, at_k, resolved, found, deliveryRecordOf]

end Outcome

section Apply

variable {C O J : Type} {H : Host C O} {clock : BlockClock} {admission : Admission}
  {ops : List BlockOp} {prepared : PreparedWork} {tables : Tables}

/-- The records a block's turns leave in its tables. -/
structure Reports (ops : List BlockOp) (prepared : PreparedWork) (tables : Tables) : Prop where
  members : ∀ k r, tables.members k = some r → ∃ reason, r = .rejected reason
  calls : ∀ k r, tables.calls k = some r →
    ∃ call reason, prepared.calls[k]? = some call ∧ r = callNotFinalized call reason
  deliveries : ∀ k r, tables.deliveries k = some r →
    ∃ delivery reason, prepared.deliveries[k]? = some delivery ∧
      r = deliveryNotFinalized delivery reason

theorem runUnits_reports {β : Type} {U : Units β} {acc : β → List AcceptedUnit} (app : U.Appends acc) {wire : Wire}
    {b b' : β} (ended : runUnits U wire admission ops prepared b = .ok (tables, b')) :
    Reports ops prepared tables := by
  obtain ⟨⟨members, b₁⟩, ranMembers, ended⟩ := bind_eq_ok.mp ended
  obtain ⟨⟨calls, b₂⟩, ranCalls, ended⟩ := bind_eq_ok.mp ended
  obtain ⟨⟨deliveries, b₃⟩, ranDeliveries, ended⟩ := bind_eq_ok.mp ended
  cases ended
  refine ⟨fun k r found => ?_, fun k r found => ?_, fun k r found => ?_⟩
  · rcases runTurns_reports (fun _ _ _ r _ ended => (memberTurn_landsAs app ended).2 r rfl) ranMembers found with
      none | ⟨j, op, -, -, report⟩
    · cases none
    · exact report
  · rcases runTurns_reports (P := fun call r => ∃ reason, r = callNotFinalized call reason)
      (fun _ _ _ r _ ended => (callTurn_landsAs app wire ended).2 r rfl) ranCalls found with
      none | ⟨j, call, rfl, at_j, reason, report⟩
    · cases none
    · exact ⟨call, reason, by rwa [Nat.zero_add], report⟩
  · rcases runTurns_reports (P := fun delivery r => ∃ reason, r = deliveryNotFinalized delivery reason)
      (fun _ _ _ r _ ended => (runDelivery_landsAs app ended).2 r rfl) ranDeliveries found with
      none | ⟨j, delivery, rfl, at_j, reason, report⟩
    · cases none
    · exact ⟨delivery, reason, by rwa [Nat.zero_add], report⟩

section Landed

variable {accepted : List AcceptedUnit} (landed : BlockLanded ops prepared tables accepted)
  {outcome : BatchOutcome}
  (members : outcome.members = (fillSlots prepared tables accepted).members.collect ops.length)
  (calls : outcome.calls = (fillSlots prepared tables accepted).calls.collect prepared.calls.length)
  (deliveries : outcome.deliveries
    = (fillSlots prepared tables accepted).deliveries.collect prepared.deliveries.length)
include landed members calls deliveries

/-- The records of an outcome, slot by slot. -/
theorem BlockLanded.slots :
    (∀ k < ops.length, outcome.members[k]? = (fillSlots prepared tables accepted).members k) ∧
    (∀ k < prepared.calls.length,
      outcome.calls[k]? = (fillSlots prepared tables accepted).calls k) ∧
    ∀ k < prepared.deliveries.length,
      outcome.deliveries[k]? = (fillSlots prepared tables accepted).deliveries k := by
  rw [members, calls, deliveries]
  refine ⟨fun k lt => Table.collect_getElem? (fun k lt => ?_) lt,
    fun k lt => Table.collect_getElem? (fun k lt => ?_) lt,
    fun k lt => Table.collect_getElem? (fun k lt => ?_) lt⟩
  · rcases landed.member lt with ⟨r, -, eq⟩ | ⟨unit, -, -, eq⟩ <;> rw [eq] <;> rfl
  · rcases landed.call (getElem?_eq_getElem lt) with
      ⟨r, -, eq⟩ | ⟨unit, -, -, disposition, -, eq⟩ <;> rw [eq] <;> rfl
  · rcases landed.delivery (getElem?_eq_getElem lt) with
      ⟨r, -, eq⟩ | ⟨unit, -, -, disposition, -, eq⟩ <;> rw [eq] <;> rfl

/-- The dispatch records of an outcome are those of the units accepted for its slots. -/
theorem BlockLanded.traces (reports : Reports ops prepared tables) : TracesOf accepted outcome := by
  obtain ⟨atMembers, atCalls, atDeliveries⟩ := landed.slots members calls deliveries
  -- an index past the slots holds nothing
  have within : ∀ {α : Type} {l : List α} {table : Table α} {n k : Nat} {r : α},
      l = table.collect n → l[k]? = some r → k < n := by
    rintro α l table n k r rfl found
    have short : (table.collect n).length ≤ n := by
      simpa [Table.collect] using length_filterMap_le table (range n)
    have lt := (List.getElem?_eq_some_iff.mp found).1
    omega
  refine ⟨fun k dispatches found => ?_, fun k record found => ?_, fun k record found => ?_⟩
  · have lt := within members found
    rw [atMembers k lt] at found
    rcases landed.member lt with ⟨r, left, eq⟩ | ⟨unit, mem, slot, eq⟩
    · obtain ⟨reason, rfl⟩ := reports.members k r left
      cases eq.symm.trans found
    · cases eq.symm.trans found
      exact ⟨unit, mem, slot, rfl⟩
  · have lt := within calls found
    rw [atCalls k lt] at found
    rcases landed.call (getElem?_eq_getElem lt) with
      ⟨r, left, eq⟩ | ⟨unit, mem, slot, disposition, -, eq⟩
    · obtain ⟨call, reason, -, rfl⟩ := reports.calls k r left
      cases eq.symm.trans found
      exact .inl rfl
    · cases eq.symm.trans found
      exact .inr ⟨unit, mem, slot, rfl⟩
  · have lt := within deliveries found
    rw [atDeliveries k lt] at found
    rcases landed.delivery (getElem?_eq_getElem lt) with
      ⟨r, left, eq⟩ | ⟨unit, mem, slot, disposition, -, eq⟩
    · obtain ⟨delivery, reason, -, rfl⟩ := reports.deliveries k r left
      cases eq.symm.trans found
      exact .inl rfl
    · cases eq.symm.trans found
      exact .inr ⟨unit, mem, slot, rfl⟩

/-- Units left out in the tables are reported so. -/
theorem BlockLanded.leftOut {m c d : Nat}
    (left : LeftOut ops prepared m c d tables.members tables.calls tables.deliveries) :
    LeftOut ops prepared m c d (outcome.members[·]?) (outcome.calls[·]?)
      (outcome.deliveries[·]?) := by
  obtain ⟨atMembers, atCalls, atDeliveries⟩ := landed.slots members calls deliveries
  refine ⟨fun k op low found => ?_, fun k call low found => ?_, fun k delivery low found => ?_⟩ <;>
    have lt := (List.getElem?_eq_some_iff.mp found).1
  · rw [atMembers k lt]
    exact SlotTable.members.keeps (landed.members k lt) (left.members k op low found)
  · rw [atCalls k lt]
    exact SlotTable.calls.keeps (landed.calls k lt) (left.calls k call low found)
  · rw [atDeliveries k lt]
    exact SlotTable.deliveries.keeps (landed.deliveries k lt) (left.deliveries k delivery low found)

end Landed

/-- What a live block that returned `outcome` and moved the host from `host` to `host'` came to, with
`b` the state its units left and `history` every attempt they made. -/
structure Isolation (H : Host C O) (clock : BlockClock) (admission : Admission) (ops : List BlockOp)
    (prepared : PreparedWork) (host host' : HostState C) (outcome : BatchOutcome)
    (b : BlockRun C O) (history : List Asked) : Prop where
  ran : ∃ tables, runUnits ((hostUnits H clock).recording BlockRun.accepted) H.wire admission ops
    prepared (.start (H.registry.boundary host.committed) .live, []) = .ok (tables, (b, history))
  /-- Members, then calls, then deliveries, each in input order. -/
  ordered : b.accepted.Pairwise (·.slot.Before ·.slot)
  /-- The committed states are those of the accepted units' steps and the injection, run in a row
  from the block's start; so are the events and the dispatch records of the block. -/
  composed : ∃ post trace log,
    transact H clock (b.accepted.flatMap (·.steps) ++ injectionSteps prepared)
      (H.registry.boundary host.committed) = (.ok (), ⟨post, trace⟩, log) ∧
    (∀ id ∈ log.touched,
      (H.registry.code id).commit (post id).committed (post id).overlay
        = .ok (host'.committed id)) ∧
    (∀ id ∉ log.touched, host'.committed id = host.committed id) ∧
    outcome.events = log.events ∧
    b.accepted.flatMap (·.dispatches) ++ outcome.systemDispatches = log.dispatches
  /-- Every attempt was answered as on top of the units accepted before it alone. -/
  direct : ∀ asked ∈ history, asked.Direct H clock (H.registry.boundary host.committed)
  /-- Only accepted units left a trace. -/
  traces : TracesOf b.accepted outcome
  /-- Past the unit that used up the replay budget nothing ran, and every unit is reported so. -/
  spent : ∀ m c d tables b₁, IsCut ops prepared m c d →
    runUnits (hostUnits H clock) H.wire admission (ops.take m) (prepared.cut c d)
      (.start (H.registry.boundary host.committed) .live) = .ok (tables, b₁) →
    b₁.budgetExhausted = true →
    b = b₁ ∧ LeftOut ops prepared m c d (outcome.members[·]?) (outcome.calls[·]?)
      (outcome.deliveries[·]?)

/-- The stages of a block's start hold nothing staged. -/
theorem atBoundary_boundary (H : Host C O) (committed : ModuleId → C) :
    AtBoundary H (H.registry.boundary committed) := fun _ => rfl

variable {hook : CommitWitness J} {outcome : BatchOutcome} {ctx : BlockContext}

/-- The clock of a block. -/
abbrev BlockContext.clockOn (ctx : BlockContext) (host : HostState C) : BlockClock :=
  ⟨ctx.height, ctx.consensusTime, host.clock⟩

/-- What a block that returned went through before its boundary. -/
theorem applyBlock_ok {observation : Observation} {commitOnly : Option (Finset ModuleId)}
    {host host' : HostState C} {sink sink' : J}
    (ended : applyBlock H hook ctx ops prepared observation admission commitOnly host sink
      = (.ok outcome, host', sink')) :
    ∃ tables b b' log witness,
      runUnits (hostUnits H (ctx.clockOn host)) H.wire admission ops prepared
        (.start (H.registry.boundary host.committed) observation) = .ok (tables, b) ∧
      drainInjection H (ctx.clockOn host) prepared b = .ok (b', log) ∧
      b'.observer.finish = .ok witness ∧
      commitBoundary H b'.touched commitOnly b'.stages H.registry.ids host.committed
        = (.ok (), host'.committed) ∧
      host'.clock = (ctx.height, ctx.consensusTime) ∧
      outcome = ⟨rootHash H host'.committed,
        (fillSlots prepared tables b'.accepted).members.collect ops.length,
        (fillSlots prepared tables b'.accepted).calls.collect prepared.calls.length,
        (fillSlots prepared tables b'.accepted).deliveries.collect prepared.deliveries.length,
        b'.accepted.flatMap (·.events) ++ log.events, log.dispatches, prepared, witness⟩ := by
  simp only [applyBlock] at ended
  split at ended
  · cases ended
  rename_i b' log witness staged
  obtain ⟨⟨tables', b⟩, units, staged⟩ := bind_eq_ok.mp staged
  obtain ⟨⟨b'', log'⟩, injected, staged⟩ := bind_eq_ok.mp staged
  dsimp only at staged
  split at staged
  · cases staged
  rename_i finished
  cases staged
  split at ended
  · cases ended
  split at ended
  · cases ended
  rename_i boundary
  cases ended
  exact ⟨tables', b, b', log, witness, units, injected, finished, boundary, rfl, rfl⟩

/-- What a live block that returned came to: its units ended in `tables` and `s`, its injection in
`post` with the trace `t` and `log`. -/
structure LiveBlock (H : Host C O) (ctx : BlockContext) (ops : List BlockOp) (prepared : PreparedWork)
    (admission : Admission) (host host' : HostState C) (outcome : BatchOutcome) (tables : Tables)
    (s : Sequential C O) (post : Stages C O) (t : List Trace) (log : Log) : Prop where
  units : runUnits (sequential H (ctx.clockOn host)) H.wire admission ops
    prepared (.start (H.registry.boundary host.committed)) = .ok (tables, s)
  landed : s.flight = none
  reached : ∀ r ∈ s.rollbacks, r.reaches ∅
  composes : Composes H (ctx.clockOn host) s.units
    (H.registry.boundary host.committed) s.accepted s.stages s.touched
  injected : transact H (ctx.clockOn host) (injectionSteps prepared) s.stages
    = (.ok (), ⟨post, t⟩, log)
  registered : ∀ id ∈ s.touched ∪ log.touched, id ∈ H.registry.ids
  folds : ∀ id ∈ s.touched ∪ log.touched,
    (H.registry.code id).commit (post id).committed (post id).overlay = .ok (host'.committed id)
  kept : ∀ id ∉ s.touched ∪ log.touched, host'.committed id = host.committed id
  clock : host'.clock = (ctx.height, ctx.consensusTime)
  reported : outcome = ⟨rootHash H host'.committed,
    (fillSlots prepared tables s.accepted).members.collect ops.length,
    (fillSlots prepared tables s.accepted).calls.collect prepared.calls.length,
    (fillSlots prepared tables s.accepted).deliveries.collect prepared.deliveries.length,
    s.accepted.flatMap (·.events) ++ log.events, log.dispatches, prepared, ⟨s.units ++ [⟨t⟩]⟩⟩

/-- A live block that returned is sequential, and the host stands where the sequential run does. -/
theorem applyBlock_settles {host host' : HostState C} {sink sink' : J}
    (live : applyBlock H hook ctx ops prepared .live admission none host sink = (.ok outcome, host', sink'))
    :
    ∃ tables b s post t log,
      runUnits (hostUnits H (ctx.clockOn host)) H.wire admission ops prepared
        (.start (H.registry.boundary host.committed) .live) = .ok (tables, b) ∧
      Settled H (ctx.clockOn host) .live (H.registry.boundary host.committed)
        (H.registry.boundary host.committed) s b ∧
      LiveBlock H ctx ops prepared admission host host' outcome tables s post t log := by
  obtain ⟨tables, b, b', log, witness, units, injected, finished, boundary, clock, reported⟩ :=
    applyBlock_ok live
  obtain ⟨s, sequentially, settled⟩ := runUnits_live (atBoundary_boundary H host.committed) H.wire units
  -- the injection is one more transaction on top of the accepted units
  cases ran : transact H (ctx.clockOn host) (injectionSteps prepared)
      s.stages with
  | mk verdict rest =>
  obtain ⟨⟨post, t⟩, added⟩ := rest
  obtain ⟨o, stands, drained⟩ := settled.injects ran trivial
  rw [injected] at drained
  cases verdict with
  | error reason => cases drained
  | ok _ =>
  obtain ⟨rfl, rfl⟩ : b' = b.ran ⟨keep ∅ (H.registry.boundary host.committed) post, o⟩ added ∧
      log = added := by simpa [Observation.substituted] using drained
  obtain rfl : ⟨s.units ++ [⟨t⟩]⟩ = witness := by simpa using (stands.finish rfl).symm.trans finished
  have held : (b.ran ⟨keep ∅ (H.registry.boundary host.committed) post, o⟩ log).touched
      = s.touched ∪ log.touched := by
    simp only [BlockRun.ran, settled.touched, Observation.substituted, Finset.sdiff_empty]
  obtain ⟨-, -, registered⟩ := settled.composes.on_top ran
  obtain ⟨folds, kept⟩ := (commitBoundary_ok H.registry.nodup).mp boundary
  rw [held] at folds kept
  refine ⟨tables, b, s, post, t, log, units, settled, sequentially, settled.landed, settled.reached,
    settled.composes, ran, registered, fun id mem => ?_, fun id out => ?_, clock, ?_⟩
  · have fold := folds id (registered id mem) ⟨mem, rfl⟩
    exact fold
  · exact kept id fun both => out both.2.1
  · rw [reported]
    simp only [BlockRun.ran, settled.accepted]

end Apply

/-! ### A host of two tallies -/

/-- A codec that writes nothing and reads nothing. -/
def blankCodec (α : Type) : Codec α := ⟨fun _ => [], fun _ => .error "blank", fun _ => ""⟩

/-- Blank codecs throughout, for hosts without system modules. -/
def blankWire : Wire where
  ack := blankCodec _
  aclMsg := blankCodec _
  aclQuery := blankCodec _
  aclReply := blankCodec _
  valsetQuery := blankCodec _
  valsetReply := blankCodec _
  identityQuery := blankCodec _
  identityReply := blankCodec _
  identityEvent := blankCodec _
  identityAssigned := blankCodec _
  dispatchMsg := blankCodec _
  dispatchQuery := blankCodec _
  dispatchReply := blankCodec _
  delivery := blankCodec _
  modulesAdvance := []
  moduleStatus := []
  modulesReply := blankCodec _

/-- A module that counts its ops, and refuses those with a payload after counting them. -/
def tally : Module Nat Nat where
  fresh := id
  root n := u64le n
  codeHash := none
  execute _ staged _ msg :=
    .done (staged + 1, if msg.payload = [] then .ok default else .error (.module "refused"))
  acknowledge _ staged _ _ := .done (staged, .error (.module "tally: no mailbox"))
  query _ _ _ _ := .done (.error (.module "tally: no queries"))
  pendingItems _ := .ok []
  commit _ staged := .ok staged

/-- Two tallies and no system module. -/
def tallyHost : Host Nat Nat where
  registry := ⟨["left", "right"], fun _ => tally, by decide⟩
  wire := blankWire
  sha256 := id

/-- A count and a refused count, for the tally `target`. -/
def countOp (target : ModuleId) : BlockOp := ⟨.external [], ⟨target, []⟩⟩
def refusedOp (target : ModuleId) : BlockOp := ⟨.external [], ⟨target, [0]⟩⟩

/-- A block whose second member is rolled back. -/
def tallyOps : List BlockOp := [countOp "left", refusedOp "right", countOp "right"]

/-- Nothing counted yet. -/
def tallyStart : HostState Nat := ⟨fun _ => 0, (0, 0)⟩

end Ducktape
