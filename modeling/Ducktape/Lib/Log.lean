import Mathlib.Data.List.Basic
import Mathlib.Tactic.Common

/-! # Append-only logs

A log is a list of entries, each written as several records; a crash leaves a prefix of the records.
`crash_cut` says such a prefix is some whole entries and the start of one more. A reader is a fallible
fold over the records: `foldlM_append_of_ok` composes its runs, and one that gets through a log gets
through every prefix of it (`foldlM_of_prefix`). -/

namespace Ducktape.Lib

open List

section Fold

variable {ε α σ : Type} {step : σ → α → Except ε σ} {s s' : σ}

/-- A reader that gets past a record goes on from there. -/
theorem foldlM_cons_of_ok {x : α} {log : List α} (read : step s x = .ok s') :
    (x :: log).foldlM step s = log.foldlM step s' := by
  rw [foldlM_cons, read]
  rfl

/-- A reader that gets through a part of a log goes on from there. -/
theorem foldlM_append_of_ok {first rest : List α} (read : first.foldlM step s = .ok s') :
    (first ++ rest).foldlM step s = rest.foldlM step s' := by
  rw [foldlM_append, read]
  rfl

/-- A reader that gets through a log gets through every prefix of it. -/
theorem foldlM_of_prefix {read log : List α} (cut : read <+: log)
    (ended : log.foldlM step s = .ok s') : ∃ mid, read.foldlM step s = .ok mid := by
  obtain ⟨rest, rfl⟩ := cut
  rw [foldlM_append] at ended
  cases reached : read.foldlM step s with
  | error e => rw [reached] at ended; cases ended
  | ok mid => exact ⟨mid, rfl⟩

end Fold

section Crash

variable {α β : Type} {records : α → List β}

/-- A prefix of a concatenation ends in the first part or in the second. -/
theorem prefix_append_cases {left a b : List β} (cut : left <+: a ++ b) :
    left <+: a ∨ ∃ rest, left = a ++ rest ∧ rest <+: b := by
  rcases prefix_or_prefix_of_prefix cut (prefix_append a b) with short | ⟨rest, rfl⟩
  · exact .inl short
  · exact .inr ⟨rest, rfl, (prefix_append_right_inj a).mp cut⟩

/-- A crash leaves whole entries and the start of the next one. -/
theorem crash_cut (entries : List α) {left : List β} (cut : left <+: entries.flatMap records) :
    ∃ done tail, done <+: entries ∧ left = done.flatMap records ++ tail ∧
      (tail = [] ∨ ∃ next, done ++ [next] <+: entries ∧ tail <+: records next ∧ tail ≠ records next) := by
  induction entries generalizing left with
  | nil => exact ⟨[], [], prefix_rfl, by simpa using cut, .inl rfl⟩
  | cons entry entries ih =>
    rcases prefix_append_cases (flatMap_cons ▸ cut) with short | ⟨rest, rfl, rest_cut⟩
    · by_cases whole : left = records entry
      · exact ⟨[entry], [], by simp, by simp [whole], .inl rfl⟩
      · exact ⟨[], left, nil_prefix, rfl, .inr ⟨entry, by simp, short, whole⟩⟩
    · obtain ⟨done, tail, within, rfl, ends⟩ := ih rest_cut
      refine ⟨entry :: done, tail, by simpa using within, by simp, ?_⟩
      rcases ends with rfl | ⟨next, within, start, proper⟩
      · exact .inl rfl
      · exact .inr ⟨next, by simpa using within, start, proper⟩

end Crash

end Ducktape.Lib
