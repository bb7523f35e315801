import Ducktape.Host.Block
import Ducktape.Lib.Lockstep

/-! # Outcome slots

Every member, call and delivery of a block ends in exactly one of two ways: it leaves a record in its
slot of the block's tables, or one accepted unit that carries the slot. `runUnits_lands` says so for a
whole block, over any unit runner that adds to its accepted units only on acceptance; `fillSlots` then
fills the remaining slots, and nothing else, with the accepted units' traces. -/

namespace Ducktape

open Lib Function Slot List Nat

variable {β ρ : Type} {acc : β → List AcceptedUnit} {b b' : β} {table : Table ρ}

/-- The order in which slots are accepted: members, calls, deliveries, each in input order. -/
def Slot.Before : Slot → Slot → Prop
  | .member i, .member j => i < j
  | .member _, _ => True
  | .call i, .call j => i < j
  | .call _, .delivery _ => True
  | .delivery i, .delivery j => i < j
  | _, _ => False

theorem Slot.Before.ne {a b : Slot} (before : a.Before b) : a ≠ b := by
  rintro rfl
  cases a <;> exact absurd before (lt_irrefl _)

theorem Slot.member_before (i j : Nat) (lt : i < j) : (member i).Before (.member j) := lt

theorem Slot.call_before (i j : Nat) (lt : i < j) : (call i).Before (.call j) := lt

theorem Slot.delivery_before (i j : Nat) (lt : i < j) : (delivery i).Before (.delivery j) := lt

/-- An accepted unit carries `slot` and resolves to its kind. -/
def Slot.Holds (slot : Slot) (unit : AcceptedUnit) : Prop :=
  unit.slot = slot ∧
    match slot with
    | .member _ => unit.resolved = .member
    | .call _ => ∃ disposition, unit.resolved = .call disposition
    | .delivery _ => ∃ disposition, unit.resolved = .delivery disposition

theorem Slot.holds_call (unit : AcceptedUnit) (slot : Nat) (disposition : CallDisposition) :
    (call slot).Holds { unit with slot := .call slot, resolved := .call disposition } :=
  ⟨rfl, _, rfl⟩

theorem Slot.holds_delivery (unit : AcceptedUnit) (slot : Nat) (disposition : DeliveryDisposition) :
    (delivery slot).Holds { unit with slot := .delivery slot, resolved := .delivery disposition } :=
  ⟨rfl, _, rfl⟩

/-- A runner whose accepted units `acc` change only on acceptance. -/
structure Units.Appends (U : Units β) (acc : β → List AcceptedUnit) : Prop where
  runUnit : ∀ steps b, Lib.Moves (fun b b' => acc b' = acc b) b (U.runUnit steps b)
  extendUnit : ∀ unit steps b, Lib.Moves (fun b b' => acc b' = acc b) b (U.extendUnit unit steps b)
  authority : ∀ call b, Lib.Moves (fun b b' => acc b' = acc b) b (U.authority call b)
  accept : ∀ unit b, acc (U.accept unit b) = acc b ++ [unit]

/-- How a turn for `slot` ended: with a record, or with one accepted unit. -/
def Lands (acc : β → List AcceptedUnit) (slot : Slot) (b : β) : Option ρ → β → Prop
  | some _, b' => acc b' = acc b
  | none, b' => ∃ unit, slot.Holds unit ∧ acc b' = acc b ++ [unit]

/-- A turn that landed; a record it left is one of its `report`s. -/
def LandsAs (acc : β → List AcceptedUnit) (slot : Slot) (report : ρ → Prop) (b : β) (record : Option ρ)
    (b' : β) : Prop := Lands acc slot b record b' ∧ ∀ r ∈ record, report r

variable {report : ρ → Prop}

theorem LandsAs.after {slot : Slot} {b₁ : β} {record : Option ρ} (same : acc b₁ = acc b)
    (lands : LandsAs acc slot report b₁ record b') :
    LandsAs acc slot report b record b' := by
  refine ⟨?_, lands.2⟩
  cases record <;> simpa [Lands, same] using lands.1

theorem landsAs_report {slot : Slot} {r : ρ} (holds : report r) :
    LandsAs acc slot report b (some r) b :=
  ⟨rfl, by rintro _ ⟨⟩; exact holds⟩

variable {admission : Admission}

section Turns

variable {U : Units β} {acc : β → List AcceptedUnit} (app : U.Appends acc) (wire : Wire)
  {b b' : β} {slot : Nat} {record : Option CallRecord} {delivery : PreparedDelivery}
include app

/-- Accepting the unit in flight lands it. -/
theorem accept_landsAs (unit : AcceptedUnit) (slot : Slot) (resolved : Resolved)
    (holds : slot.Holds { unit with slot := slot, resolved := resolved }) (b : β) :
    LandsAs acc slot report b none (U.accept { unit with slot := slot, resolved := resolved } b) :=
  ⟨⟨_, holds, app.accept _ b⟩, nofun⟩

theorem memberTurn_landsAs {op : BlockOp} {record : Option MemberOutcome}
    (ended : memberTurn U admission slot op b = .ok (record, b')) :
    LandsAs acc (.member slot) (fun r => ∃ reason, r = .rejected reason) b record b' := by
  obtain ⟨⟨verdict, b₁⟩, ran, ended⟩ := bind_eq_ok.mp ended
  refine LandsAs.after (app.runUnit _ b _ _ ran) ?_
  cases verdict with
  | accepted unit =>
    cases ended
    exact accept_landsAs app unit _ _ ⟨rfl, rfl⟩ b₁
  | rejected reason =>
    cases admission with
    | batch => cases ended; exact landsAs_report ⟨_, rfl⟩
    | sole => cases ended
  | unattempted => cases ended; exact landsAs_report ⟨_, rfl⟩

variable {notFinalized : String → ρ} {resolved : Resolved}

theorem settle_landsAs {slot : Slot}
    (holds : ∀ unit : AcceptedUnit, slot.Holds { unit with slot := slot, resolved := resolved })
    {step : Step} {onReject : Error → β → Except SubmitError (Option ρ × β)}
    (reject : ∀ reason b record b', onReject reason b = .ok (record, b') →
      LandsAs acc slot (fun r => ∃ reason, r = notFinalized reason) b record b') {record : Option ρ}
    (ended : settle U slot resolved step notFinalized onReject b = .ok (record, b')) :
    LandsAs acc slot (fun r => ∃ reason, r = notFinalized reason) b record b' := by
  obtain ⟨⟨verdict, b₁⟩, ran, ended⟩ := bind_eq_ok.mp ended
  refine LandsAs.after (app.runUnit _ b _ _ ran) ?_
  cases verdict with
  | accepted unit =>
    cases ended
    exact accept_landsAs app unit _ _ (holds unit) b₁
  | rejected reason => exact reject reason b₁ record b' ended
  | unattempted => cases ended; exact landsAs_report ⟨_, rfl⟩

/-- A settlement whose rejection leaves the item queued. -/
theorem settle_queued_landsAs {slot : Slot}
    (holds : ∀ unit : AcceptedUnit, slot.Holds { unit with slot := slot, resolved := resolved })
    {step : Step} {record : Option ρ} (ended : settle U slot resolved step notFinalized
      (fun reason b => .ok (some (notFinalized reason.display), b)) b = .ok (record, b')) :
    LandsAs acc slot (fun r => ∃ reason, r = notFinalized reason) b record b' := by
  refine settle_landsAs app holds ?_ ended
  rintro reason b record b' ⟨⟩
  exact landsAs_report ⟨_, rfl⟩

variable {call : PreparedCall}

theorem finalizeCall_landsAs {outcome : CallOutcome}
    (ended : finalizeCall U wire slot call outcome b = .ok (record, b')) :
    LandsAs acc (.call slot) (fun r => ∃ reason, r = callNotFinalized call reason) b record b' := by
  unfold finalizeCall at ended
  cases fallback : callFallback outcome with
  | none =>
    rw [fallback] at ended
    exact settle_queued_landsAs app (fun unit => holds_call unit slot _) ended
  | some attempted =>
    rw [fallback] at ended
    refine settle_landsAs app (fun unit => holds_call unit slot _) (fun reason b record b' ended => ?_) ended
    exact settle_queued_landsAs app (fun unit => holds_call unit slot _) ended

/-- A call that accepts no unit stays queued. -/
theorem callTurn_landsAs (ended : callTurn U wire slot call b = .ok (record, b')) :
    LandsAs acc (.call slot) (fun r => ∃ reason, r = callNotFinalized call reason) b record b' := by
  obtain ⟨⟨verdict, b₁⟩, ran, ended⟩ := bind_eq_ok.mp ended
  refine LandsAs.after (app.authority _ b _ _ ran) ?_
  match verdict with
  | none => cases ended; exact landsAs_report ⟨_, rfl⟩
  | some (.refused refusal) =>
    have ended : finalizeCall U wire slot call (.refused refusal) b₁ = .ok (record, b') := ended
    exact finalizeCall_landsAs app wire ended
  | some .admitted =>
    obtain ⟨⟨verdict, b₂⟩, ran, ended⟩ := bind_eq_ok.mp ended
    refine LandsAs.after (app.runUnit _ b₁ _ _ ran) ?_
    cases verdict with
    | unattempted => cases ended; exact landsAs_report ⟨_, rfl⟩
    | rejected reason => exact finalizeCall_landsAs app wire ended
    | accepted unit =>
      obtain ⟨⟨extended, b₃⟩, ran, ended⟩ := bind_eq_ok.mp ended
      refine LandsAs.after (app.extendUnit _ _ b₂ _ _ ran) ?_
      cases extended with
      | ok unit =>
        cases ended
        exact accept_landsAs app unit _ _ (holds_call unit slot _) b₃
      | error reason => exact finalizeCall_landsAs app wire ended

theorem acknowledgeDelivery_landsAs {outcome : DeliveryOutcome} {record : Option DeliveryRecord}
    (ended : acknowledgeDelivery U slot delivery outcome b = .ok (record, b')) :
    LandsAs acc (.delivery slot) (fun r => ∃ reason, r = deliveryNotFinalized delivery reason) b record b' := by
  cases outcome with
  | unrepresentable => exact settle_queued_landsAs app (fun unit => holds_delivery unit slot _) ended
  | applied | failed reason =>
    refine settle_landsAs app (fun unit => holds_delivery unit slot _) (fun reason b record b' ended => ?_) ended
    exact settle_queued_landsAs app (fun unit => holds_delivery unit slot _) ended

/-- An item that accepts no unit stays queued. -/
theorem runDelivery_landsAs {record : Option DeliveryRecord}
    (ended : runDelivery U slot delivery b = .ok (record, b')) :
    LandsAs acc (.delivery slot) (fun r => ∃ reason, r = deliveryNotFinalized delivery reason) b record b' := by
  obtain ⟨⟨verdict, b₁⟩, ran, ended⟩ := bind_eq_ok.mp ended
  refine LandsAs.after (app.runUnit _ b _ _ ran) ?_
  cases verdict with
  | unattempted => cases ended; exact landsAs_report ⟨_, rfl⟩
  | rejected reason => exact acknowledgeDelivery_landsAs app ended
  | accepted unit =>
    obtain ⟨⟨extended, b₂⟩, ran, ended⟩ := bind_eq_ok.mp ended
    refine LandsAs.after (app.extendUnit _ _ b₁ _ _ ran) ?_
    cases extended with
    | ok unit =>
      cases ended
      exact accept_landsAs app unit _ _ (holds_delivery unit slot _) b₂
    | error reason => exact acknowledgeDelivery_landsAs app ended

end Turns

variable {table' : Table ρ}

/-- A record in the table was left by the turn of its slot. -/
theorem runTurns_reports {ι : Type} {turn : Nat → ι → β → Except SubmitError (Option ρ × β)}
    {P : ι → ρ → Prop} (each : ∀ i item b r b', turn i item b = .ok (some r, b') → P item r)
    {i : Nat} {items : List ι} (ended : runTurns turn i items table b = .ok (table', b')) {k : Nat}
    {r : ρ} (found : table' k = some r) :
    table k = some r ∨ ∃ j item, k = i + j ∧ items[j]? = some item ∧ P item r := by
  induction items generalizing i table b with
  | nil => cases ended; exact .inl found
  | cons item items ih =>
    obtain ⟨⟨record, b₁⟩, ran, ended⟩ := bind_eq_ok.mp ended
    rcases ih ended with before | ⟨j, item', rfl, found', holds⟩
    · cases record with
      | none => exact .inl before
      | some record =>
        have before : update table i (some record) k = some r := before
        by_cases here : k = i
        · subst here
          rw [update_self] at before
          cases before
          exact .inr ⟨0, item, rfl, rfl, each k item b r b₁ ran⟩
        · rw [update_of_ne here] at before
          exact .inl before
    · exact .inr ⟨j + 1, item', by omega, found', holds⟩

/-! ## A whole run of turns -/

/-- The slots `mk i, …, mk (n - 1)` after their turns: `new` are the units accepted for them. -/
structure Landed (mk : Nat → Slot) (i n : Nat) (table table' : Table ρ) (new : List AcceptedUnit) :
    Prop where
  held : ∀ unit ∈ new, ∃ k, i ≤ k ∧ k < n ∧ (mk k).Holds unit
  ordered : new.Pairwise (·.slot.Before ·.slot)
  outside : ∀ k, k < i ∨ n ≤ k → table' k = table k
  inside : ∀ k, i ≤ k → k < n →
    ((table' k).isSome ∧ ∀ unit ∈ new, unit.slot ≠ mk k) ∨
      (table' k = table k ∧ ∃ unit ∈ new, (mk k).Holds unit)

theorem runTurns_lands {ι : Type} {mk : Nat → Slot} (before : ∀ i j, i < j → (mk i).Before (mk j))
    {turn : Nat → ι → β → Except SubmitError (Option ρ × β)}
    (each : ∀ i item b record b', turn i item b = .ok (record, b') → Lands acc (mk i) b record b')
    {i : Nat} {items : List ι} (ended : runTurns turn i items table b = .ok (table', b')) :
    ∃ new, acc b' = acc b ++ new ∧ Landed mk i (i + items.length) table table' new := by
  induction items generalizing i table b with
  | nil =>
    cases ended
    refine ⟨[], by simp, by simp, .nil, fun _ _ => rfl, fun k low high => ?_⟩
    simp only [length_nil] at high
    omega
  | cons item items ih =>
    obtain ⟨⟨record, b₁⟩, ran, ended⟩ := bind_eq_ok.mp ended
    have first := each i item b record b₁ ran
    obtain ⟨new, accepted, rest⟩ := ih ended
    have later : ∀ unit ∈ new, unit.slot ≠ mk i := by
      intro unit mem same
      obtain ⟨k, low, -, holds⟩ := rest.held unit mem
      exact (before i k low).ne (same.symm.trans holds.1)
    have length : i + (item :: items).length = i + 1 + items.length := by
      rw [length_cons]; omega
    rw [length]
    cases record with
    | some record =>
      -- the turn left a record: its slot is taken, and no later turn goes back to it
      refine ⟨new, by rw [accepted, first], ?_, rest.ordered, fun k out => ?_, fun k low high => ?_⟩
      · intro unit mem
        obtain ⟨k, low, high, holds⟩ := rest.held unit mem
        exact ⟨k, by omega, high, holds⟩
      · rw [rest.outside k (by omega)]
        exact update_of_ne (by omega) _ _
      · rcases eq_or_lt_of_le low with rfl | low
        · left
          rw [rest.outside i (by omega)]
          exact ⟨by simp, later⟩
        · rcases rest.inside k low high with done | ⟨same, unit, mem, holds⟩
          · exact .inl done
          · exact .inr ⟨same.trans (update_of_ne (by omega) _ _), unit, mem, holds⟩
    | none =>
      obtain ⟨unit, holds, accepted'⟩ := first
      refine ⟨unit :: new, by rw [accepted, accepted', append_assoc]; rfl, ?_, ?_,
        fun k out => rest.outside k (by omega), fun k low high => ?_⟩
      · intro u mem
        rcases mem_cons.mp mem with rfl | mem
        · exact ⟨i, le_refl i, by omega, holds⟩
        · obtain ⟨k, low, high, holds⟩ := rest.held u mem
          exact ⟨k, by omega, high, holds⟩
      · refine .cons (fun u mem => ?_) rest.ordered
        obtain ⟨k, low, -, holds'⟩ := rest.held u mem
        rw [holds.1, holds'.1]
        exact before i k low
      · rcases eq_or_lt_of_le low with rfl | low
        · exact .inr ⟨rest.outside i (by omega), unit, mem_cons_self, holds⟩
        · rcases rest.inside k low high with ⟨done, free⟩ | ⟨same, u, mem, holds'⟩
          · refine .inl ⟨done, fun u mem => ?_⟩
            rcases mem_cons.mp mem with rfl | mem
            · rw [holds.1]; exact (before i k low).ne
            · exact free u mem
          · exact .inr ⟨same, u, mem_cons_of_mem _ mem, holds'⟩

/-- Every slot of a block has a record and no unit, or a unit and no record. -/
structure BlockLanded (ops : List BlockOp) (prepared : PreparedWork) (tables : Tables)
    (new : List AcceptedUnit) : Prop where
  ordered : new.Pairwise (·.slot.Before ·.slot)
  members : ∀ k < ops.length,
    ((tables.members k).isSome ∧ ∀ unit ∈ new, unit.slot ≠ .member k) ∨
      (tables.members k = none ∧ ∃ unit ∈ new, (Slot.member k).Holds unit)
  calls : ∀ k < prepared.calls.length,
    ((tables.calls k).isSome ∧ ∀ unit ∈ new, unit.slot ≠ .call k) ∨
      (tables.calls k = none ∧ ∃ unit ∈ new, (Slot.call k).Holds unit)
  deliveries : ∀ k < prepared.deliveries.length,
    ((tables.deliveries k).isSome ∧ ∀ unit ∈ new, unit.slot ≠ .delivery k) ∨
      (tables.deliveries k = none ∧ ∃ unit ∈ new, (Slot.delivery k).Holds unit)
  held : ∀ unit ∈ new, ∃ k,
    (k < ops.length ∧ (Slot.member k).Holds unit) ∨
      (k < prepared.calls.length ∧ (Slot.call k).Holds unit) ∨
      (k < prepared.deliveries.length ∧ (Slot.delivery k).Holds unit)

theorem Slot.Holds.slot_ne {a b : Slot} {unit : AcceptedUnit} (holds : a.Holds unit) (ne : a ≠ b) :
    unit.slot ≠ b := fun same => ne (holds.1.symm.trans same)

/-- The slot has a record and no unit, or a unit and no record. -/
def Slot.Settled (slot : Slot) (record : Option ρ) (new : List AcceptedUnit) : Prop :=
  (record.isSome ∧ ∀ unit ∈ new, unit.slot ≠ slot) ∨ (record = none ∧ ∃ unit ∈ new, slot.Holds unit)

section Landed

variable {mk : Nat → Slot} {n : Nat} {new others all : List AcceptedUnit}
  (landed : Landed mk 0 n (fun _ => none) table new)
include landed

theorem Landed.carried : ∀ unit ∈ new, ∃ k, k < n ∧ (mk k).Holds unit := by
  intro unit mem
  obtain ⟨k, -, high, holds⟩ := landed.held unit mem
  exact ⟨k, high, holds⟩

/-- A run's slots beside units of other kinds. -/
theorem Landed.beside (perm : all.Perm (new ++ others)) (apart : ∀ unit ∈ others, ∀ k, unit.slot ≠ mk k)
    (k : Nat) (lt : k < n) : (mk k).Settled (table k) all := by
  rcases landed.inside k (zero_le k) lt with ⟨done, free⟩ | ⟨same, unit, mem, holds⟩
  · refine .inl ⟨done, fun unit mem => ?_⟩
    rcases mem_append.mp (perm.mem_iff.mp mem) with mem | mem
    · exact free unit mem
    · exact apart unit mem k
  · exact .inr ⟨same, unit, perm.mem_iff.mpr (mem_append_left _ mem), holds⟩

end Landed

/-- **Every turn of a block lands.** -/
theorem runUnits_lands {U : Units β} (app : U.Appends acc) (wire : Wire) {ops : List BlockOp}
    {prepared : PreparedWork} {tables : Tables}
    (ended : runUnits U wire admission ops prepared b = .ok (tables, b')) :
    ∃ new, acc b' = acc b ++ new ∧ BlockLanded ops prepared tables new := by
  obtain ⟨⟨members, b₁⟩, ranMembers, ended⟩ := bind_eq_ok.mp ended
  obtain ⟨⟨calls, b₂⟩, ranCalls, ended⟩ := bind_eq_ok.mp ended
  obtain ⟨⟨deliveries, b₃⟩, ranDeliveries, ended⟩ := bind_eq_ok.mp ended
  cases ended
  obtain ⟨newMembers, accMembers, landedMembers⟩ := runTurns_lands member_before
    (fun _ _ _ _ _ ended => (memberTurn_landsAs app ended).1) ranMembers
  obtain ⟨newCalls, accCalls, landedCalls⟩ := runTurns_lands call_before
    (fun _ _ _ _ _ ended => (callTurn_landsAs app wire ended).1) ranCalls
  obtain ⟨newDeliveries, accDeliveries, landedDeliveries⟩ := runTurns_lands delivery_before
    (fun _ _ _ _ _ ended => (runDelivery_landsAs app ended).1) ranDeliveries
  rw [Nat.zero_add] at landedMembers landedCalls landedDeliveries
  have atMember := landedMembers.carried
  have atCall := landedCalls.carried
  have atDelivery := landedDeliveries.carried
  refine ⟨newMembers ++ (newCalls ++ newDeliveries), ?_, ?_, ?_, ?_, ?_, ?_⟩
  · rw [accDeliveries, accCalls, accMembers, append_assoc, append_assoc]
  · refine pairwise_append.mpr ⟨landedMembers.ordered, pairwise_append.mpr
      ⟨landedCalls.ordered, landedDeliveries.ordered, fun u mem v mem' => ?_⟩, fun u mem v mem' => ?_⟩
    · obtain ⟨_, -, holds⟩ := atCall _ mem
      obtain ⟨_, -, holds'⟩ := atDelivery _ mem'
      rw [holds.1, holds'.1]
      trivial
    · obtain ⟨_, -, holds⟩ := atMember _ mem
      rcases mem_append.mp mem' with mem' | mem'
      · obtain ⟨_, -, holds'⟩ := atCall _ mem'
        rw [holds.1, holds'.1]
        trivial
      · obtain ⟨_, -, holds'⟩ := atDelivery _ mem'
        rw [holds.1, holds'.1]
        trivial
  · refine landedMembers.beside (.refl _) fun unit mem k => ?_
    rcases mem_append.mp mem with mem | mem
    · exact (atCall _ mem).choose_spec.2.slot_ne nofun
    · exact (atDelivery _ mem).choose_spec.2.slot_ne nofun
  · refine landedCalls.beside (perm_append_comm_assoc newMembers newCalls newDeliveries) fun unit mem k => ?_
    rcases mem_append.mp mem with mem | mem
    · exact (atMember _ mem).choose_spec.2.slot_ne nofun
    · exact (atDelivery _ mem).choose_spec.2.slot_ne nofun
  · have perm : (newMembers ++ (newCalls ++ newDeliveries)).Perm (newDeliveries ++ (newMembers ++ newCalls)) :=
      append_assoc newMembers newCalls newDeliveries ▸ perm_append_comm
    refine landedDeliveries.beside perm fun unit mem k => ?_
    rcases mem_append.mp mem with mem | mem
    · exact (atMember _ mem).choose_spec.2.slot_ne nofun
    · exact (atCall _ mem).choose_spec.2.slot_ne nofun
  · intro unit mem
    rcases mem_append.mp mem with mem | mem
    · exact (atMember _ mem).imp fun _ => .inl
    rcases mem_append.mp mem with mem | mem
    · exact (atCall _ mem).imp fun _ at_k => .inr (.inl at_k)
    · exact (atDelivery _ mem).imp fun _ at_k => .inr (.inr at_k)

/-! ## Filling the slots -/

/-- The record an accepted call unit leaves. -/
def callRecordOf (call : PreparedCall) (disposition : CallDisposition) (unit : AcceptedUnit) :
    CallRecord := ⟨call.enqueued, call.id, disposition, unit.dispatches⟩

/-- The record an accepted delivery unit leaves. -/
def deliveryRecordOf (delivery : PreparedDelivery) (disposition : DeliveryDisposition)
    (unit : AcceptedUnit) : DeliveryRecord :=
  ⟨delivery.item, delivery.target, disposition, unit.dispatches⟩

/-- One kind of slots, with its table: a unit fills at most the slot it carries. -/
structure SlotTable (ρ : Type) where
  slot : Nat → Slot
  table : Tables → Table ρ
  apart : ∀ prepared tables (unit : AcceptedUnit) k, unit.slot ≠ slot k →
    table (fillSlot prepared tables unit) k = table tables k

namespace SlotTable

def members : SlotTable MemberOutcome where
  slot := .member
  table := Tables.members
  apart prepared tables unit k apart := by
    unfold fillSlot
    repeat' split
    all_goals grind [update_apply]

def calls : SlotTable CallRecord where
  slot := .call
  table := Tables.calls
  apart prepared tables unit k apart := by
    unfold fillSlot
    repeat' split
    all_goals grind [update_apply]

def deliveries : SlotTable DeliveryRecord where
  slot := .delivery
  table := Tables.deliveries
  apart prepared tables unit k apart := by
    unfold fillSlot
    repeat' split
    all_goals grind [update_apply]

variable (kind : SlotTable ρ) {prepared : PreparedWork} {tables : Tables} {accepted : List AcceptedUnit} {k : Nat}

/-- A slot no unit carries stays as it is. -/
theorem of_free (free : ∀ unit ∈ accepted, unit.slot ≠ kind.slot k) :
    kind.table (fillSlots prepared tables accepted) k = kind.table tables k := by
  induction accepted generalizing tables with
  | nil => rfl
  | cons unit accepted ih =>
    obtain ⟨here, later⟩ := forall_mem_cons.mp free
    exact (ih later).trans (kind.apart _ _ _ _ here)

/-- A slot in the end: its record, or the trace of its unit. The units after that one carry others. -/
theorem filled (ordered : accepted.Pairwise (·.slot.Before ·.slot))
    (landed : (kind.slot k).Settled (kind.table tables k) accepted) :
    (∃ r, kind.table tables k = some r ∧ kind.table (fillSlots prepared tables accepted) k = some r) ∨
      ∃ unit ∈ accepted, (kind.slot k).Holds unit ∧ ∃ before,
        kind.table (fillSlots prepared tables accepted) k = kind.table (fillSlot prepared before unit) k := by
  rcases landed with ⟨filled, free⟩ | ⟨-, unit, mem, holds⟩
  · obtain ⟨r, eq⟩ := Option.isSome_iff_exists.mp filled
    exact .inl ⟨r, eq, (kind.of_free free).trans eq⟩
  refine .inr ⟨unit, mem, holds, ?_⟩
  obtain ⟨pre, post, rfl⟩ := append_of_mem mem
  refine ⟨fillSlots prepared tables pre, ?_⟩
  rw [fillSlots, foldl_append, foldl_cons]
  refine kind.of_free fun u later => ?_
  rw [← holds.1]
  exact (Slot.Before.ne (rel_of_pairwise_cons (pairwise_append.mp ordered).2.1 later)).symm

/-- A record stays. -/
theorem keeps (landed : (kind.slot k).Settled (kind.table tables k) accepted) {r : ρ}
    (held : kind.table tables k = some r) : kind.table (fillSlots prepared tables accepted) k = some r := by
  rcases landed with ⟨-, free⟩ | ⟨none, -⟩
  · exact (kind.of_free free).trans held
  · cases none.symm.trans held

end SlotTable

theorem Table.collect_length {n : Nat} (filled : ∀ k < n, (table k).isSome) :
    (table.collect n).length = n := by
  induction n with
  | zero => rfl
  | succ n ih =>
    obtain ⟨last, eq⟩ := Option.isSome_iff_exists.mp (filled n (lt_succ_self n))
    have shorter := ih fun k lt => filled k (lt_succ_of_lt lt)
    simp only [Table.collect] at shorter ⊢
    rw [range_succ, filterMap_append, length_append, shorter]
    simp [eq]

/-- Slots that are all filled are collected as they are. -/
theorem Table.collect_getElem? {n : Nat} (filled : ∀ k < n, (table k).isSome) {k : Nat} (lt : k < n) :
    (table.collect n)[k]? = table k := by
  induction n with
  | zero => omega
  | succ n ih =>
    obtain ⟨last, eq⟩ := Option.isSome_iff_exists.mp (filled n (lt_succ_self n))
    have before : ∀ k < n, (table k).isSome := fun k lt => filled k (lt_succ_of_lt lt)
    have length := Table.collect_length before
    have split : table.collect (n + 1) = table.collect n ++ [last] := by
      simp [Table.collect, range_succ, eq]
    rw [split]
    rcases Nat.lt_succ_iff_lt_or_eq.mp lt with lt | rfl
    · rw [getElem?_append_left (by omega)]
      exact ih before lt
    · rw [getElem?_append_right (by omega), length, eq]
      simp

end Ducktape
