import Ducktape.Lib.Lockstep
import Ducktape.Host.Units

/-! # Comparing two unit runners over a block

`Units.Lockstep U V` says the runner `V` follows the runner `U` operation by operation, with one
relation between units and another while an accepted unit is in flight. `runUnits_tracks` carries it
through the members, the calls and the deliveries of a whole block. -/

namespace Ducktape

open Lib

variable {γ β : Type}

/-- Every operation of the runner moves its state along `P`. -/
structure Units.Moves (U : Units β) (P : β → β → Prop) : Prop where
  runUnit : ∀ steps b, Lib.Moves P b (U.runUnit steps b)
  extendUnit : ∀ unit steps b, Lib.Moves P b (U.extendUnit unit steps b)
  authority : ∀ call b, Lib.Moves P b (U.authority call b)
  accept : ∀ unit b, P b (U.accept unit b)

/-- What two runners are to each other after a unit was attempted. -/
def afterUnit (rel : γ → β → Prop) (flight : AcceptedUnit → γ → β → Prop) :
    UnitVerdict → γ → β → Prop
  | .accepted unit, c, b => flight unit c b
  | _, c, b => rel c b

/-- What two runners are to each other after a unit was extended. -/
def afterExtension (rel : γ → β → Prop) (flight : AcceptedUnit → γ → β → Prop) :
    Except String AcceptedUnit → γ → β → Prop
  | .ok unit, c, b => flight unit c b
  | .error _, c, b => rel c b

/-- The runner `V` follows the runner `U`: `rel` relates their states between units, `flight` while
an accepted unit is in flight. -/
structure Units.Lockstep (U : Units γ) (V : Units β) (rel : γ → β → Prop)
    (flight : AcceptedUnit → γ → β → Prop) (Good Apart : γ → Prop) (Off : β → Prop) : Prop where
  ahead : U.Moves (Ahead Good Apart)
  off : V.Moves (StaysOff Off)
  runUnit : ∀ steps c b, rel c b →
    Follows Good Apart Off (afterUnit rel flight) (U.runUnit steps c) (V.runUnit steps b)
  extendUnit : ∀ unit steps c b, flight unit c b →
    Follows Good Apart Off (afterExtension rel flight) (U.extendUnit unit steps c)
      (V.extendUnit unit steps b)
  authority : ∀ call c b, rel c b →
    Follows Good Apart Off (fun _ => rel) (U.authority call c) (V.authority call b)
  accept : ∀ unit slot resolved c b, flight unit c b →
    Good (U.accept { unit with slot := slot, resolved := resolved } c) →
    rel (U.accept { unit with slot := slot, resolved := resolved } c)
      (V.accept { unit with slot := slot, resolved := resolved } b)

/-- The operations of two runners are related, one by one. -/
structure Units.Related (U : Units γ) (V : Units β) (T : ∀ {α : Type}, Prop → γ → β → (α → γ → β → Prop) →
    Except SubmitError (α × γ) → Except SubmitError (α × β) → Prop)
    (rel : γ → β → Prop) (flight : AcceptedUnit → γ → β → Prop) : Prop where
  runUnit : ∀ steps c b, T (rel c b) c b (afterUnit rel flight) (U.runUnit steps c) (V.runUnit steps b)
  extendUnit : ∀ unit steps c b, T (flight unit c b) c b (afterExtension rel flight)
    (U.extendUnit unit steps c) (V.extendUnit unit steps b)
  authority : ∀ call c b, T (rel c b) c b (fun _ => rel) (U.authority call c) (V.authority call b)
  accept : ∀ {ρ : Type} (unit : AcceptedUnit) slot resolved (record : Option ρ) c b,
    T (flight unit c b) c b (fun _ => rel)
      (.ok (record, U.accept { unit with slot := slot, resolved := resolved } c))
      (.ok (record, V.accept { unit with slot := slot, resolved := resolved } b))

section Related

variable {U : Units γ} {V : Units β} {rel : γ → β → Prop} {flight : AcceptedUnit → γ → β → Prop}
  {T : ∀ {α : Type}, Prop → γ → β → (α → γ → β → Prop) → Except SubmitError (α × γ) →
    Except SubmitError (α × β) → Prop} (composes : Composable T)
include composes

theorem runTurns_related {ι ρ : Type} {turn : Nat → ι → γ → Except SubmitError (Option ρ × γ)}
    {turn' : Nat → ι → β → Except SubmitError (Option ρ × β)}
    (each : ∀ i item c b, T (rel c b) c b (fun _ => rel) (turn i item c) (turn' i item b))
    (i : Nat) (items : List ι) (table : Table ρ) (c : γ) (b : β) :
    T (rel c b) c b (fun _ => rel) (runTurns turn i items table c) (runTurns turn' i items table b) := by
  induction items generalizing i table c b with
  | nil => exact composes.stay id
  | cons item items ih => exact composes.bind (each i item c b) fun record c b => ih (i + 1) _ c b

variable (related : U.Related V T rel flight) (wire : Wire)
include related

/-- Only a block that stands or falls with its one member fails on a rejection. -/
theorem memberTurn_related (admission : Admission)
    (sole : admission = .sole → ∀ e c b, T (rel c b) c b (fun (_ : Option MemberOutcome) => rel) (.error e) (.error e))
    (slot : Nat) (op : BlockOp) (c : γ) (b : β) :
    T (rel c b) c b (fun _ => rel) (memberTurn U admission slot op c) (memberTurn V admission slot op b) := by
  refine composes.bind (related.runUnit [memberStep op] c b) fun verdict c b => ?_
  cases verdict with
  | accepted unit => exact related.accept unit _ _ none c b
  | rejected reason =>
    cases admission with
    | batch => exact composes.stay id
    | sole => exact sole rfl _ c b
  | unattempted => exact composes.stay id

theorem settle_related {ρ : Type} (slot : Slot) (resolved : Resolved) (step : Step)
    (notFinalized : String → ρ) {onReject : Error → γ → Except SubmitError (Option ρ × γ)}
    {onReject' : Error → β → Except SubmitError (Option ρ × β)}
    (reject : ∀ reason c b, T (rel c b) c b (fun _ => rel) (onReject reason c) (onReject' reason b))
    (c : γ) (b : β) :
    T (rel c b) c b (fun _ => rel) (settle U slot resolved step notFinalized onReject c)
      (settle V slot resolved step notFinalized onReject' b) := by
  refine composes.bind (related.runUnit [step] c b) fun verdict c b => ?_
  cases verdict with
  | accepted unit => exact related.accept unit _ _ none c b
  | rejected reason => exact reject reason c b
  | unattempted => exact composes.stay id

theorem finalizeCall_related (slot : Nat) (call : PreparedCall) (outcome : CallOutcome) (c : γ) (b : β) :
    T (rel c b) c b (fun _ => rel) (finalizeCall U wire slot call outcome c)
      (finalizeCall V wire slot call outcome b) := by
  unfold finalizeCall
  cases callFallback outcome with
  | none =>
    refine settle_related composes related _ _ _ _ (fun reason c b => ?_) c b
    exact composes.stay id
  | some attempted =>
    refine settle_related composes related _ _ _ _ (fun _ c b => ?_) c b
    refine settle_related composes related _ _ _ _ (fun reason c b => ?_) c b
    exact composes.stay id

theorem runCall_related (slot : Nat) (call : PreparedCall) (verdict : Option Verdict) (c : γ) (b : β) :
    T (rel c b) c b (fun _ => rel) (runCall U wire slot call verdict c)
      (runCall V wire slot call verdict b) := by
  match verdict with
  | none => exact composes.stay id
  | some (.refused refusal) =>
    exact finalizeCall_related composes related wire slot call (.refused refusal) c b
  | some .admitted =>
    refine composes.bind (related.runUnit [callStep call] c b) fun verdict c b => ?_
    cases verdict with
    | unattempted => exact composes.stay id
    | rejected reason => exact finalizeCall_related composes related wire slot call _ c b
    | accepted unit =>
      refine composes.bind (related.extendUnit unit _ c b) fun extended c b => ?_
      cases extended with
      | ok unit => exact related.accept unit _ _ none c b
      | error reason => exact finalizeCall_related composes related wire slot call _ c b

theorem acknowledgeDelivery_related (slot : Nat) (delivery : PreparedDelivery)
    (outcome : DeliveryOutcome) (c : γ) (b : β) :
    T (rel c b) c b (fun _ => rel) (acknowledgeDelivery U slot delivery outcome c)
      (acknowledgeDelivery V slot delivery outcome b) := by
  unfold acknowledgeDelivery
  cases outcome with
  | unrepresentable =>
    refine settle_related composes related _ _ _ _ (fun reason c b => ?_) c b
    exact composes.stay id
  | applied | failed reason =>
    refine settle_related composes related _ _ _ _ (fun _ c b => ?_) c b
    refine settle_related composes related _ _ _ _ (fun reason c b => ?_) c b
    exact composes.stay id

theorem runDelivery_related (slot : Nat) (delivery : PreparedDelivery) (c : γ) (b : β) :
    T (rel c b) c b (fun _ => rel) (runDelivery U slot delivery c) (runDelivery V slot delivery b) := by
  refine composes.bind (related.runUnit [deliveryStep delivery] c b) fun verdict c b => ?_
  cases verdict with
  | unattempted => exact composes.stay id
  | rejected reason => exact acknowledgeDelivery_related composes related slot delivery _ c b
  | accepted unit =>
    refine composes.bind (related.extendUnit unit _ c b) fun extended c b => ?_
    cases extended with
    | ok unit => exact related.accept unit _ _ none c b
    | error reason => exact acknowledgeDelivery_related composes related slot delivery _ c b

/-- What relates the operations of two runners relates their runs of a whole block. -/
theorem runUnits_related (admission : Admission)
    (sole : admission = .sole → ∀ e c b, T (rel c b) c b (fun (_ : Option MemberOutcome) => rel) (.error e) (.error e))
    (ops : List BlockOp) (prepared : PreparedWork) (c : γ) (b : β) :
    T (rel c b) c b (fun _ => rel) (runUnits U wire admission ops prepared c)
      (runUnits V wire admission ops prepared b) := by
  have calls : ∀ slot call c b, T (rel c b) c b (fun _ => rel) (callTurn U wire slot call c)
      (callTurn V wire slot call b) := fun slot call c b =>
    composes.bind (related.authority call c b) fun verdict c b =>
      runCall_related composes related wire slot call verdict c b
  refine composes.bind
    (runTurns_related composes (memberTurn_related composes related admission sole) 0 ops _ c b)
    fun members c b => ?_
  refine composes.bind (runTurns_related composes calls 0 prepared.calls _ c b) fun calls c b => ?_
  refine composes.bind
    (runTurns_related composes (runDelivery_related composes related) 0 prepared.deliveries _ c b)
    fun deliveries c b => ?_
  exact composes.stay id

end Related

/-- **The runners stay in lockstep over a whole block**, or part and stay parted. -/
theorem runUnits_tracks {U : Units γ} {V : Units β} {rel : γ → β → Prop}
    {flight : AcceptedUnit → γ → β → Prop} {Good Apart : γ → Prop} {Off : β → Prop}
    (lock : U.Lockstep V rel flight Good Apart Off) (wire : Wire) (admission : Admission)
    (ops : List BlockOp) (prepared : PreparedWork) (c : γ) (b : β) :
    Tracks Good Apart Off (rel c b) c b (fun _ => rel) (runUnits U wire admission ops prepared c)
      (runUnits V wire admission ops prepared b) :=
  runUnits_related (Tracks.composes Good Apart Off)
    { runUnit := fun steps c b => ⟨lock.ahead.runUnit steps c, lock.off.runUnit steps b, lock.runUnit steps c b⟩
      extendUnit := fun unit steps c b => ⟨lock.ahead.extendUnit unit steps c,
        lock.off.extendUnit unit steps b, lock.extendUnit unit steps c b⟩
      authority := fun call c b => ⟨lock.ahead.authority call c, lock.off.authority call b, lock.authority call c b⟩
      accept := fun unit slot resolved _ c b =>
        .ok (lock.ahead.accept _ c) (lock.off.accept _ b) (lock.accept unit slot resolved c b) }
    wire admission (fun _ e _ _ => .error e) ops prepared c b

end Ducktape
