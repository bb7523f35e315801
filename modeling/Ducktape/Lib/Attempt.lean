import Ducktape.Lib.Interaction

/-! # Programs that may refuse

An interaction program whose result is an `Except`, as a monad. Two ways of running one matter here:

* `Attempt.value f` answers from a fixed oracle, and is a homomorphism into `Except`;
* `Attempt.attempt h` threads a handler state, and the handler itself may refuse a question.

`Attempt.value_of_attempt` says that what a truthful handler lets through is what the oracle gives.
-/

namespace Ducktape.Lib

/-- A program asking questions `q : Q` that ends in an `α` or refuses with an `ε`. -/
abbrev Attempt (Q : Type) (A : Q → Type) (ε α : Type) : Type := ExceptT ε (Prog Q A) α

namespace Attempt

variable {Q : Type} {A : Q → Type} {ε α β σ : Type}

/-- One question, answered. -/
def query (q : Q) : Attempt Q A ε (A q) := Prog.ask q fun a => .done (.ok a)

/-- Run a program against a fixed oracle. -/
def value (f : (q : Q) → A q) (p : Attempt Q A ε α) : Except ε α := Prog.eval f p

/-- Run a program against a handler that threads its own state and may refuse. -/
def attempt (h : (q : Q) → σ → Except ε (A q × σ)) : Attempt Q A ε α → σ → Except ε (α × σ)
  | .done (.ok a), s => .ok (a, s)
  | .done (.error e), _ => .error e
  | .ask q next, s => (h q s).bind fun answered => attempt h (next answered.1) answered.2

variable {f : (q : Q) → A q} {h : (q : Q) → σ → Except ε (A q × σ)}

/-! ## Running against an oracle -/

theorem bind_ok_iff {x : Except ε α} {k : α → Except ε β} {b : β} :
    x.bind k = .ok b ↔ ∃ a, x = .ok a ∧ k a = .ok b := by
  cases x with
  | error | ok => simp [Except.bind]

@[simp] theorem value_pure (a : α) : value f (pure a : Attempt Q A ε α) = .ok a := rfl

@[simp] theorem value_throw (e : ε) : value f (throw e : Attempt Q A ε α) = .error e := rfl

@[simp] theorem value_query (q : Q) : value f (query q : Attempt Q A ε (A q)) = .ok (f q) := rfl

@[simp] theorem value_bind (p : Attempt Q A ε α) (k : α → Attempt Q A ε β) :
    value f (p >>= k) = (value f p).bind fun a => value f (k a) := by
  have split : value f (p >>= k) = Prog.eval f (ExceptT.bindCont k (Prog.eval f p)) :=
    Prog.eval_bind f p (ExceptT.bindCont k)
  rw [split, value]
  cases Prog.eval f p with
  | ok | error => rfl

@[simp] theorem value_ite (c : Prop) [Decidable c] (p q : Attempt Q A ε α) :
    value f (if c then p else q) = if c then value f p else value f q := by
  split <;> rfl

/-! ## Running against a handler -/

/-- What a truthful handler lets through is what the oracle gives. -/
theorem value_of_attempt (truthful : ∀ q s a s', h q s = .ok (a, s') → a = f q)
    {p : Attempt Q A ε α} {s : σ} {a : α} {s' : σ} (ran : attempt h p s = .ok (a, s')) :
    value f p = .ok a := by
  induction p generalizing s with
  | done result =>
    cases result with
    | ok b =>
      obtain ⟨rfl, rfl⟩ : b = a ∧ s = s' := by simpa [attempt] using ran
      rfl
    | error e => cases ran
  | ask q next ih =>
    change (h q s).bind _ = _ at ran
    cases answered : h q s with
    | error e => rw [answered] at ran; cases ran
    | ok pair =>
      obtain ⟨b, t⟩ := pair
      rw [answered] at ran
      obtain rfl := truthful q s b t answered
      exact ih _ ran

/-- Where the oracle gives a value, a truthful handler gives it too, or one of its answers fails. -/
theorem attempt_cases (truthful : ∀ q s a s', h q s = .ok (a, s') → a = f q) {p : Attempt Q A ε α} {a : α}
    (valued : value f p = .ok a) (s : σ) :
    (∃ s', attempt h p s = .ok (a, s')) ∨ ∃ q t e, h q t = .error e ∧ attempt h p s = .error e := by
  induction p generalizing s with
  | done result =>
    cases result with
    | ok b =>
      obtain rfl : b = a := by simpa [value] using valued
      exact .inl ⟨s, rfl⟩
    | error e => cases valued
  | ask q next ih =>
    change (∃ s', (h q s).bind _ = _) ∨ ∃ _ _ _, _ ∧ (h q s).bind _ = _
    cases answered : h q s with
    | error e => exact .inr ⟨q, s, e, answered, rfl⟩
    | ok pair =>
      obtain ⟨b, t⟩ := pair
      obtain rfl := truthful q s b t answered
      exact ih _ valued t

/-- A handler that always answers as the oracle does runs as the oracle. -/
theorem attempt_of_value (answers : ∀ q s, h q s = .ok (f q, s)) (p : Attempt Q A ε α) (s : σ) :
    attempt h p s = (value f p).map fun a => (a, s) := by
  induction p with
  | done result => cases result <;> rfl
  | ask q next ih =>
    change (h q s).bind _ = _
    rw [answers]
    exact ih _

end Attempt

end Ducktape.Lib
