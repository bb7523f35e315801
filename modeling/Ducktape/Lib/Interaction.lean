import Mathlib.Data.List.Basic
import Mathlib.Tactic.Common

/-! # Interaction programs

A program that asks questions of its surroundings and continues with the answers, as a free monad
over a question signature `A : Q → Type`. Two ways of running it matter for record and replay:

* `Prog.eval f` answers every question from a fixed oracle `f`, and `Prog.log f` is the list of
  question/answer pairs that run makes, in order;
* `Prog.run h` threads a handler state through the questions.

`Prog.run_tracks` joins the two: a handler that answers like the oracle along the log ends where the
oracle's run ends. Recording the log and serving a recorded log back are both such handlers.
-/

namespace Ducktape.Lib

/-- A program asking questions `q : Q`, each answered in `A q`, and ending in an `α`. -/
inductive Prog (Q : Type) (A : Q → Type) (α : Type) : Type
  /-- The program has ended. -/
  | done (a : α) : Prog Q A α
  /-- The program asks `q` and continues with its answer. -/
  | ask (q : Q) (next : A q → Prog Q A α) : Prog Q A α

namespace Prog

variable {Q : Type} {A : Q → Type} {α β σ : Type}

/-- Sequential composition: continue with `f` where the first program ends. -/
def bind : Prog Q A α → (α → Prog Q A β) → Prog Q A β
  | done a, f => f a
  | ask q next, f => ask q fun a => (next a).bind f

instance : Monad (Prog Q A) where
  pure := done
  bind := bind

/-- One question, answered. -/
def perform (q : Q) : Prog Q A (A q) := ask q done

variable (h : (q : Q) → σ → A q × σ) (f : (q : Q) → A q) (a : α)

@[simp] theorem pure_eq : (pure a : Prog Q A α) = done a := rfl

/-- Run a program against a fixed oracle. -/
def eval (f : (q : Q) → A q) : Prog Q A α → α
  | done a => a
  | ask q next => (next (f q)).eval f

/-- The questions a run against a fixed oracle asks, with their answers, in order. -/
def log (f : (q : Q) → A q) : Prog Q A α → List ((q : Q) × A q)
  | done _ => []
  | ask q next => ⟨q, f q⟩ :: (next (f q)).log f

/-- Run a program against a handler that threads its own state. -/
def run (h : (q : Q) → σ → A q × σ) : Prog Q A α → σ → α × σ
  | done a, s => (a, s)
  | ask q next, s => (next (h q s).1).run h (h q s).2

@[simp] theorem eval_done : (done a : Prog Q A α).eval f = a := rfl

@[simp] theorem eval_ask (f : (q : Q) → A q) (q : Q) (next : A q → Prog Q A α) :
    (ask q next).eval f = (next (f q)).eval f := rfl

@[simp] theorem run_ask (h : (q : Q) → σ → A q × σ) (q : Q) (next : A q → Prog Q A α) (s : σ) :
    (ask q next).run h s = (next (h q s).1).run h (h q s).2 := rfl

@[simp] theorem eval_bind (p : Prog Q A α) (k : α → Prog Q A β) :
    (p >>= k).eval f = (k (p.eval f)).eval f := by
  induction p with
  | done a => rfl
  | ask q next ih => exact ih (f q)

/-- What no question changes, no run changes. -/
theorem run_keeps {τ : Type} (f : σ → τ) (keeps : ∀ q s, f (h q s).2 = f s) (p : Prog Q A α) (s : σ) :
    f (p.run h s).2 = f s := by
  induction p generalizing s with
  | done a => rfl
  | ask q next ih => exact (ih _ _).trans (keeps q s)

/-- Handlers that agree on the states they meet run alike. -/
theorem run_congr {h h' : (q : Q) → σ → A q × σ} {P : σ → Prop} (agree : ∀ q s, P s → h q s = h' q s)
    (keeps : ∀ q s, P s → P (h q s).2) (p : Prog Q A α) {s : σ} (holds : P s) :
    p.run h s = p.run h' s := by
  induction p generalizing s with
  | done a => rfl
  | ask q next ih =>
    rw [run_ask, run_ask, ← agree q s holds]
    exact ih _ (keeps q s holds)

/-- Handlers that answer alike from related states run alike from them. -/
theorem run_related {τ : Type} {R : σ → τ → Prop} {h : (q : Q) → σ → A q × σ} {h' : (q : Q) → τ → A q × τ}
    (step : ∀ q s t, R s t → (h q s).1 = (h' q t).1 ∧ R (h q s).2 (h' q t).2) (p : Prog Q A α) {s : σ}
    {t : τ} (related : R s t) : (p.run h s).1 = (p.run h' t).1 ∧ R (p.run h s).2 (p.run h' t).2 := by
  induction p generalizing s t with
  | done a => exact ⟨rfl, related⟩
  | ask q next ih =>
    obtain ⟨answer, related⟩ := step q s t related
    rw [run_ask, answer]
    exact ih _ related

/-- **A handler that tracks an oracle tracks the run.** If serving one question of `log f` takes the
handler from `R (⟨q, f q⟩ :: rest)` to `R rest` with the oracle's answer, then from `R (log ++ rest)`
the run ends in `R rest` with the oracle's result. `R t s` reads "in state `s` the exchanges `t` lie
ahead". -/
theorem run_tracks (R : List ((q : Q) × A q) → σ → Prop)
    (step : ∀ q rest s, R (⟨q, f q⟩ :: rest) s → (h q s).1 = f q ∧ R rest (h q s).2) (p : Prog Q A α)
    (rest : List ((q : Q) × A q)) (s : σ) (ahead : R (p.log f ++ rest) s) :
    (p.run h s).1 = p.eval f ∧ R rest (p.run h s).2 := by
  induction p generalizing s with
  | done a => exact ⟨rfl, ahead⟩
  | ask q next ih =>
    obtain ⟨answer, ahead'⟩ := step q _ s ahead
    rw [run_ask, answer]
    exact ih (f q) _ ahead'

end Prog

end Ducktape.Lib
