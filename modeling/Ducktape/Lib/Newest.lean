import Mathlib.Data.List.DropRight
import Mathlib.Data.List.Sort
import Mathlib.Data.Nat.Basic

/-! # The newest items of a log

A bounded window over a growing log holds its newest items, `List.rtake`. Truncating early loses
nothing (`rtake_append_rtake`), and a long enough end of the log has the same newest items as the log
(`rtake_of_suffix`). A log whose keys increase is determined by its members (`eq_of_increasing`), and
what it has above a bound is its end (`filter_suffix`). -/

namespace Ducktape.Lib

open List

section Newest

variable {α : Type} {n : Nat}

/-- A long enough end of a log has the log's newest items. -/
theorem rtake_of_suffix {suffix log : List α} (ends : suffix <:+ log)
    (long : n ≤ suffix.length ∨ suffix = log) : suffix.rtake n = log.rtake n := by
  rcases long with long | rfl
  · obtain ⟨front, rfl⟩ := ends
    have skip : (front ++ suffix).length - n = front.length + (suffix.length - n) := by
      rw [length_append]
      omega
    rw [rtake, rtake, skip]
    simp
  · rfl

theorem rtake_suffix (n : Nat) (log : List α) : log.rtake n <:+ log := drop_suffix _ log

theorem length_rtake (n : Nat) (log : List α) : (log.rtake n).length = min n log.length := by
  rw [rtake, length_drop]
  omega

/-- A short enough end of a log is among its newest items. -/
theorem suffix_rtake {suffix log : List α} (ends : suffix <:+ log) (short : suffix.length ≤ n) :
    suffix <:+ log.rtake n := by
  refine suffix_of_suffix_length_le ends (rtake_suffix n log) ?_
  rw [length_rtake]
  exact Nat.le_min.mpr ⟨short, ends.length_le⟩

/-- Truncating early loses nothing that counts later. -/
theorem rtake_append_rtake (n : Nat) (old new : List α) :
    (old.rtake n ++ new).rtake n = (old ++ new).rtake n := by
  obtain ⟨front, eq⟩ := rtake_suffix n old
  refine rtake_of_suffix ⟨front, by rw [← append_assoc, eq]⟩ ?_
  rw [length_append, length_rtake]
  by_cases short : old.length ≤ n
  · refine .inr ?_
    rw [rtake, Nat.sub_eq_zero_of_le short, drop_zero]
  · left
    omega

@[simp] theorem rtake_rtake (n : Nat) (log : List α) : (log.rtake n).rtake n = log.rtake n := by
  simpa using rtake_append_rtake n log []

end Newest

section Increasing

variable {α : Type} {key : α → Nat} {log log' : List α}

/-- A log whose keys increase holds one item a key. -/
theorem eq_of_key_eq (increasing : log.Pairwise (key · < key ·)) {a b : α} (left : a ∈ log)
    (right : b ∈ log) (same : key a = key b) : a = b :=
  inj_on_of_nodup_map (pairwise_map.mpr (increasing.imp Nat.ne_of_lt)) left right same

/-- A log whose keys increase is determined by its members. -/
theorem eq_of_increasing (left : log.Pairwise (key · < key ·)) (right : log'.Pairwise (key · < key ·))
    (same : ∀ a, a ∈ log ↔ a ∈ log') : log = log' := by
  have : Std.Asymm fun a b => key a < key b := ⟨fun _ _ => Nat.lt_asymm⟩
  exact left.eq_of_mem_iff right same

/-- What lies above a bound is the end of the log. -/
theorem filter_suffix {keeps : α → Bool} (upward : ∀ a b, keeps a → key a < key b → keeps b)
    (increasing : log.Pairwise (key · < key ·)) : log.filter keeps <:+ log := by
  induction log with
  | nil => exact suffix_rfl
  | cons head log ih =>
    obtain ⟨above, rest⟩ := pairwise_cons.mp increasing
    cases kept : keeps head with
    | true =>
      have all : (head :: log).filter keeps = head :: log := by
        rw [filter_eq_self]
        intro item mem
        rcases mem_cons.mp mem with rfl | mem
        · exact kept
        · exact upward head item kept (above item mem)
      exact ⟨[], by rw [all, nil_append]⟩
    | false =>
      rw [filter_cons_of_neg (by simp [kept])]
      exact (ih rest).trans (suffix_cons head log)

/-- A part of the log that leaves out nothing below itself starts the log. -/
theorem prefix_of_downward (increasing : log.Pairwise (key · < key ·))
    (ordered : log'.Pairwise (key · < key ·)) (within : log' ⊆ log)
    (downward : ∀ a ∈ log', ∀ b ∈ log, key b < key a → b ∈ log') : log' <+: log := by
  classical
  suffices whole : log = log' ++ log.filter (· ∉ log') from ⟨_, whole.symm⟩
  refine eq_of_increasing increasing (pairwise_append.mpr ⟨ordered, increasing.filter _, ?_⟩) fun a => ?_
  · intro a mem b rest
    obtain ⟨held, new⟩ : b ∈ log ∧ b ∉ log' := by simpa using rest
    rcases Nat.lt_trichotomy (key a) (key b) with lt | same | lt
    · exact lt
    · exact absurd (eq_of_key_eq increasing (within mem) held same ▸ mem) new
    · exact absurd (downward a mem b held lt) new
  · have : a ∈ log' → a ∈ log := @within a
    simp only [mem_append, mem_filter, decide_eq_true_eq]
    tauto

/-- A start of the log grows by what comes next. -/
theorem prefix_append_of_downward {start more : List α} (increasing : log.Pairwise (key · < key ·))
    (begins : start <+: log) (ordered : more.Pairwise (key · < key ·)) (within : more ⊆ log)
    (new : ∀ a ∈ more, a ∉ start)
    (downward : ∀ a ∈ more, ∀ b ∈ log, key b < key a → b ∈ start ∨ b ∈ more) : start ++ more <+: log := by
  obtain ⟨rest, rfl⟩ := begins
  rw [prefix_append_right_inj]
  obtain ⟨-, rest_increasing, apart⟩ := pairwise_append.mp increasing
  refine prefix_of_downward rest_increasing ordered (fun a mem => ?_) fun a mem b held lt => ?_
  · exact (mem_append.mp (within mem)).resolve_left (new a mem)
  · refine (downward a mem b (mem_append_right _ held) lt).resolve_left fun early => ?_
    exact absurd (apart b early b held) (lt_irrefl _)

end Increasing

end Ducktape.Lib
