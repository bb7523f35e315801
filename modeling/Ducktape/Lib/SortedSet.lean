import Mathlib.Data.List.Sort
import Mathlib.Order.RelClasses

/-! # Sets kept as sorted lists

A set of keys kept as a strictly sorted list, searched by bisection and edited in place: `search` is what
a bisection of a sorted list finds. `search_ok` and `search_error` say where it ends; inserting and
removing there keep the list sorted and change it by one member. -/

namespace Ducktape.Lib

open List

variable {α : Type} {lt : α → α → Prop} [DecidableRel lt] [DecidableEq α] {a : α} {l : List α} {i : Nat}

variable (lt) in
/-- Where `a` is, or where it would go. -/
def search (a : α) : List α → Except Nat Nat
  | [] => .error 0
  | b :: l =>
    if lt b a then
      match search a l with
      | .ok i => .ok (i + 1)
      | .error i => .error (i + 1)
    else if b = a then .ok 0
    else .error 0

/-- A search that finds its key ends at the key. -/
theorem search_ok (found : search lt a l = .ok i) :
    ∃ before after, l = before ++ a :: after ∧ i = before.length := by
  fun_induction search lt a l generalizing i with
  | case2 b l _ k inner ih =>
    cases found
    obtain ⟨before, after, rfl, rfl⟩ := ih inner
    exact ⟨b :: before, after, rfl, rfl⟩
  | case4 l =>
    cases found
    exact ⟨[], l, rfl, rfl⟩
  | _ => cases found

/-- A search that does not find its key ends between the smaller keys and the greater ones. -/
theorem search_error [IsStrictTotalOrder α lt] (sorted : l.Pairwise lt) (missing : search lt a l = .error i) :
    ∃ before after, l = before ++ after ∧ i = before.length ∧
      (∀ b ∈ before, lt b a) ∧ ∀ b ∈ after, lt a b := by
  fun_induction search lt a l generalizing i with
  | case1 =>
    cases missing
    exact ⟨[], [], rfl, rfl, by simp, by simp⟩
  | case3 b l below k inner ih =>
    cases missing
    obtain ⟨before, after, rfl, rfl, smaller, greater⟩ := ih (pairwise_cons.mp sorted).2 inner
    exact ⟨b :: before, after, rfl, rfl, forall_mem_cons.mpr ⟨below, smaller⟩, greater⟩
  | case5 b l notBelow apart =>
    cases missing
    have first : lt a b := (trichotomous_of lt a b).resolve_right fun other =>
      other.elim (fun same => apart same.symm) notBelow
    exact ⟨[], b :: l, rfl, rfl, by simp,
      forall_mem_cons.mpr ⟨first, fun c mem => trans_of lt first ((pairwise_cons.mp sorted).1 c mem)⟩⟩
  | _ => cases missing

/-- A sorted list is searched through. -/
theorem search_ok_iff [IsStrictTotalOrder α lt] (sorted : l.Pairwise lt) :
    (∃ i, search lt a l = .ok i) ↔ a ∈ l := by
  constructor
  · rintro ⟨i, found⟩
    obtain ⟨before, after, rfl, -⟩ := search_ok found
    simp
  · intro mem
    cases found : search lt a l with
    | ok i => exact ⟨i, rfl⟩
    | error i =>
      obtain ⟨before, after, rfl, -, smaller, greater⟩ := search_error sorted found
      rcases mem_append.mp mem with mem | mem
      · exact absurd (smaller a mem) (irrefl_of lt a)
      · exact absurd (greater a mem) (irrefl_of lt a)

/-! ## Editing where the search ended -/

section insert

variable [IsStrictTotalOrder α lt] (sorted : l.Pairwise lt) (missing : search lt a l = .error i)
include sorted missing

theorem mem_insertIdx_search (b : α) : b ∈ l.insertIdx i a ↔ b = a ∨ b ∈ l := by
  obtain ⟨before, after, rfl, rfl, -⟩ := search_error sorted missing
  rw [mem_insertIdx (by simp)]

theorem length_insertIdx_search : (l.insertIdx i a).length = l.length + 1 := by
  obtain ⟨before, after, rfl, rfl, -⟩ := search_error sorted missing
  rw [length_insertIdx_of_le_length (by simp)]

theorem sorted_insertIdx_search : (l.insertIdx i a).Pairwise lt := by
  obtain ⟨before, after, rfl, rfl, smaller, greater⟩ := search_error sorted missing
  have shape : (before ++ after).insertIdx before.length a = before ++ a :: after := by
    clear sorted missing smaller
    induction before with
    | nil => rfl
    | cons b before ih => simp [ih]
  obtain ⟨left, right, across⟩ := pairwise_append.mp sorted
  rw [shape]
  refine pairwise_append.mpr ⟨left, pairwise_cons.mpr ⟨greater, right⟩, fun b mem c mem' => ?_⟩
  rcases mem_cons.mp mem' with rfl | mem'
  · exact smaller b mem
  · exact across b mem c mem'

end insert

theorem length_eraseIdx_search (found : search lt a l = .ok i) : (l.eraseIdx i).length + 1 = l.length := by
  obtain ⟨before, after, rfl, rfl⟩ := search_ok found
  simp [eraseIdx_append_of_length_le]
  omega

theorem mem_eraseIdx_search [IsStrictOrder α lt] (sorted : l.Pairwise lt) (found : search lt a l = .ok i)
    (b : α) : b ∈ l.eraseIdx i ↔ b ∈ l ∧ b ≠ a := by
  obtain ⟨before, after, rfl, rfl⟩ := search_ok found
  have shape : (before ++ a :: after).eraseIdx before.length = before ++ after := by
    simp [eraseIdx_append_of_length_le]
  obtain ⟨-, right, across⟩ := pairwise_append.mp sorted
  have apart : ∀ b ∈ before ++ after, b ≠ a := by
    rintro b mem rfl
    rcases mem_append.mp mem with mem | mem
    · exact irrefl_of lt b (across b mem b mem_cons_self)
    · exact irrefl_of lt b ((pairwise_cons.mp right).1 b mem)
  rw [shape]
  constructor
  · intro mem
    refine ⟨?_, apart b mem⟩
    simp only [mem_append] at mem ⊢
    tauto
  · simp only [mem_append, mem_cons]
    tauto

omit [DecidableRel lt] [DecidableEq α] in
/-- Inserting behind the smaller members. -/
theorem sorted_insertWhile [IsStrictTotalOrder α lt] {p : α → Bool} (smaller : ∀ b, p b = true ↔ lt b a)
    (sorted : l.Pairwise lt) (fresh : a ∉ l) : (l.takeWhile p ++ a :: l.dropWhile p).Pairwise lt := by
  induction l with
  | nil => exact pairwise_singleton lt a
  | cons b l ih =>
    obtain ⟨first, sorted⟩ := pairwise_cons.mp sorted
    obtain ⟨apart, fresh⟩ := ne_and_not_mem_of_not_mem_cons fresh
    by_cases below : p b = true
    · rw [takeWhile_cons_of_pos below, dropWhile_cons_of_pos below, cons_append]
      refine pairwise_cons.mpr ⟨fun c mem => ?_, ih sorted fresh⟩
      rw [perm_middle.mem_iff, takeWhile_append_dropWhile, mem_cons] at mem
      rcases mem with rfl | mem
      · exact (smaller b).mp below
      · exact first c mem
    · rw [takeWhile_cons_of_neg below, dropWhile_cons_of_neg below, nil_append]
      have above : lt a b := (trichotomous_of lt a b).resolve_right fun rest =>
        rest.elim apart fun under => below ((smaller b).mpr under)
      refine pairwise_cons.mpr ⟨fun c mem => ?_, pairwise_cons.mpr ⟨first, sorted⟩⟩
      rcases mem_cons.mp mem with rfl | mem
      · exact above
      · exact trans_of lt above (first c mem)

end Ducktape.Lib
