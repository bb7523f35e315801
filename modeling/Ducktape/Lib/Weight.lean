import Std.Data.ExtTreeMap
import Mathlib.Data.List.Perm.Basic
import Mathlib.Algebra.BigOperators.Group.List.Basic
import Mathlib.Algebra.Ring.Nat

/-! # Sums over the entries of a finite map

`weight w m` adds up `w k v` over the entries of `m`. Inserting a fresh entry adds its weight,
erasing one takes it away; a counter kept beside a map is shown right by these two. -/

namespace Ducktape.Lib

open Std List ExtTreeMap

variable {K V : Type} [Ord K] [Std.TransOrd K] [Std.LawfulEqOrd K]

theorem nodup_toList (m : ExtTreeMap K V) : m.toList.Nodup :=
  m.distinct_keys_toList.imp fun apart same => apart (by simp [same])

/-- The entries after a fresh insertion. -/
theorem toList_insert_perm {m : ExtTreeMap K V} {k : K} (fresh : k ∉ m) (v : V) :
    (m.insert k v).toList.Perm ((k, v) :: m.toList) := by
  have absent : m[k]? = none := getElem?_eq_none fresh
  refine (perm_ext_iff_of_nodup (nodup_toList _) ?_).mpr ?_
  · refine nodup_cons.mpr ⟨fun mem => ?_, nodup_toList m⟩
    rw [mem_toList_iff_getElem?_eq_some, absent] at mem
    cases mem
  · rintro ⟨key, value⟩
    rw [mem_toList_iff_getElem?_eq_some,
      ExtTreeMap.getElem?_insert]
    by_cases same : k = key
    · subst same
      simp [absent, eq_comm]
    · simp [same, Ne.symm same]

/-- The sum of `w` over the entries. -/
def weight (w : K → V → Nat) (m : ExtTreeMap K V) : Nat :=
  (m.toList.map fun entry => w entry.1 entry.2).sum

variable (w : K → V → Nat) {m : ExtTreeMap K V} {k : K} {v : V}

omit [Std.LawfulEqOrd K] in
@[simp] theorem weight_empty : weight w (∅ : ExtTreeMap K V) = 0 := by
  rw [weight, toList_eq_nil_iff.mpr rfl]
  rfl

theorem weight_insert (fresh : k ∉ m) (v : V) : weight w (m.insert k v) = weight w m + w k v := by
  unfold weight
  rw [((toList_insert_perm fresh v).map _).sum_eq, map_cons, sum_cons, Nat.add_comm]

theorem weight_erase (found : m[k]? = some v) : weight w m = weight w (m.erase k) + w k v := by
  have restored : (m.erase k).insert k v = m := by
    refine ext_getElem? fun key => ?_
    rw [ExtTreeMap.getElem?_insert, ExtTreeMap.getElem?_erase]
    by_cases same : k = key
    · subst same
      simp [found]
    · simp [same]
  have fresh : k ∉ m.erase k := by simp
  rw [← weight_insert w fresh v, restored]

/-- An insertion adds no more than the new entry's weight. -/
theorem weight_insert_le (m : ExtTreeMap K V) (k : K) (v : V) :
    weight w (m.insert k v) ≤ weight w m + w k v := by
  cases found : m[k]? with
  | none => exact Nat.le_of_eq (weight_insert w (by simpa using found) v)
  | some old =>
    have again : m.insert k v = (m.erase k).insert k v := by
      refine ext_getElem? fun key => ?_
      rw [ExtTreeMap.getElem?_insert, ExtTreeMap.getElem?_insert, getElem?_erase]
      split <;> rfl
    rw [again, weight_insert w (by simp) v, weight_erase w found]
    omega

theorem weight_insertMany_le (m : ExtTreeMap K V) (entries : List (K × V)) :
    weight w (m.insertMany entries) ≤ weight w m + (entries.map fun entry => w entry.1 entry.2).sum := by
  induction entries generalizing m with
  | nil => simp
  | cons entry entries ih =>
    have step := ih (m.insert entry.1 entry.2)
    have first := weight_insert_le w m entry.1 entry.2
    rw [insertMany_cons, map_cons, sum_cons]
    omega

/-- What collecting a list of entries weighs at most. -/
theorem weight_ofList_le (entries : List (K × V)) :
    weight w (ofList entries) ≤ (entries.map fun entry => w entry.1 entry.2).sum := by
  have bound := weight_insertMany_le w ∅ entries
  rwa [← ofList_eq_insertMany_empty, weight_empty, Nat.zero_add] at bound

/-- An entry weighs no more than the map. -/
theorem le_weight (found : m[k]? = some v) : w k v ≤ weight w m := by
  rw [weight_erase w found]
  exact Nat.le_add_left _ _

variable {entries : List (K × V)} {P : K → V → Prop}

theorem forall_insertMany (all : ∀ entry ∈ entries, P entry.1 entry.2) {m : ExtTreeMap K V}
    (start : ∀ (k : K) (v : V), m[k]? = some v → P k v) {k : K} {v : V}
    (found : (m.insertMany entries)[k]? = some v) : P k v := by
  induction entries generalizing m with
  | nil => exact start k v found
  | cons entry entries ih =>
    rw [insertMany_cons] at found
    refine ih (fun other mem => all other (mem_cons_of_mem _ mem)) (fun k v found => ?_) found
    rw [ExtTreeMap.getElem?_insert] at found
    split at found
    · rename_i same
      rw [← Std.compare_eq_iff_eq.mp same, ← Option.some.inj found]
      exact all entry mem_cons_self
    · exact start k v found

/-- A property of every entry collected is one of every entry of the map. -/
theorem forall_ofList (all : ∀ entry ∈ entries, P entry.1 entry.2) {k : K} {v : V}
    (found : (ofList entries)[k]? = some v) : P k v := by
  rw [ofList_eq_insertMany_empty] at found
  exact forall_insertMany all (by simp) found

omit [Std.LawfulEqOrd K] in
theorem values_eq_map_toList (m : ExtTreeMap K V) : m.values = m.toList.map Prod.snd := by
  obtain ⟨⟨⟨tree⟩⟩⟩ := m
  show tree.inner.values = (Std.DTreeMap.Internal.Impl.Const.toList tree.inner).map Prod.snd
  rw [Std.DTreeMap.Internal.Impl.values_eq_map_snd,
    Std.DTreeMap.Internal.Impl.Const.toList_eq_toListModel_map, List.map_map]
  rfl

omit [Std.LawfulEqOrd K] in
/-- The sum of a map's values. -/
theorem sum_values (m : ExtTreeMap K Nat) : m.values.sum = weight (fun _ amount => amount) m := by
  rw [values_eq_map_toList]
  rfl

end Ducktape.Lib
