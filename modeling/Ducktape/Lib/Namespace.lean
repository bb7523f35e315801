import Mathlib.Data.List.Infix
import Mathlib.Tactic.Common

/-! # Plain namespaces

A filesystem namespace as a function from paths to what stands there: a directory, a leaf, or nothing.
The operations and their rules are those of a plain map: `Op.Accepts` says when an operation is allowed and
`Op.apply` what it then gives. `run` applies a sequence, leaving the namespace alone at a refused one.

`spread leaves` is the namespace of some leaves and the directories on the way to them: putting a leaf updates
the leaves (`spread_put`), and so does removing one and then every directory that it leaves empty, from below
(`spread_remove`, `scaffold_remove`, `scaffold_stop`). -/

namespace Ducktape.Lib

open Function List

/-- What stands at a path. -/
inductive Item (L : Type)
  | dir
  | leaf (value : L)

/-- What stands at every path. -/
abbrev Namespace (N L : Type) : Type := List N → Option (Item L)

namespace Namespace

variable {N L : Type} {names : Namespace N L}

open Classical in
/-- Put a whole subtree at a path, its parents becoming directories. -/
noncomputable def place (names : Namespace N L) (path : List N) (subtree : Namespace N L) :
    Namespace N L := fun q =>
  if path <+: q then subtree (q.drop path.length)
  else if q <+: path then some .dir
  else names q

open Classical in
/-- Take everything at and below a path away. -/
noncomputable def remove (names : Namespace N L) (path : List N) : Namespace N L := fun q =>
  if path <+: q then none else names q

/-- What stands at and below a path. -/
def below (names : Namespace N L) (path : List N) : Namespace N L := fun q => names (path ++ q)

/-- One empty directory. -/
def emptyDir : Namespace N L
  | [] => some .dir
  | _ :: _ => none

/-- No leaf stands on the way down `path`. -/
def Open (names : Namespace N L) (path : List N) : Prop := ∀ q, q <+: path → ∀ value, names q ≠ some (.leaf value)

/-- An operation on a namespace. -/
inductive Op (N L : Type)
  | put (path : List N) (subtree : Namespace N L)
  | mkdir (path : List N)
  | rm (path : List N)
  | mv (source target : List N)

/-- When an operation is accepted. -/
def Op.Accepts (names : Namespace N L) : Op N L → Prop
  -- parents are created, the target is replaced
  | .put path _ => path ≠ [] ∧ names.Open path.dropLast
  -- parents are created, the target must be free
  | .mkdir path => path ≠ [] ∧ names.Open path.dropLast ∧ names path = none
  | .rm path => path ≠ [] ∧ names path ≠ none
  -- the target's parent is not created, and the target is not at or under the source
  | .mv source target => source ≠ [] ∧ target ≠ [] ∧ ¬source <+: target ∧ names source ≠ none ∧
      names target.dropLast = some .dir ∧ names target = none

/-- What an accepted operation gives. -/
noncomputable def Op.apply (names : Namespace N L) : Op N L → Namespace N L
  | .put path subtree => names.place path subtree
  | .mkdir path => names.place path emptyDir
  | .rm path => names.remove path
  | .mv source target => (names.remove source).place target (names.below source)

variable {op : Op N L}

/-- An accepted operation keeps the root a directory. -/
theorem Op.apply_root (accepted : op.Accepts names) (root : names [] = some .dir) :
    op.apply names [] = some .dir := by
  have placed : ∀ {path : List N} (names subtree : Namespace N L), path ≠ [] →
      names.place path subtree [] = some .dir := by
    intro path names subtree nonempty
    rw [place, if_neg (by simpa using nonempty), if_pos nil_prefix]
  cases op with
  | put | mkdir => exact placed _ _ accepted.1
  | rm path =>
    rw [Op.apply, remove, if_neg (by simpa using accepted.1)]
    exact root
  | mv source target => exact placed _ _ accepted.2.1

open Classical in
/-- Apply a sequence of operations; the verdicts, and the namespace they leave. -/
noncomputable def run (names : Namespace N L) : List (Op N L) → List Bool × Namespace N L
  | [] => ([], names)
  | op :: ops =>
    if op.Accepts names then (true :: (run (op.apply names) ops).1, (run (op.apply names) ops).2)
    else (false :: (run names ops).1, (run names ops).2)

/-! ## Namespaces given by their leaves -/

section spread

/-- One leaf. -/
def lone (value : L) : Namespace N L
  | [] => some (.leaf value)
  | _ :: _ => none

open Classical in
/-- Some leaves, and the directories on the way to them. -/
noncomputable def spread (leaves : List N → Option L) : Namespace N L := fun q =>
  match leaves q with
  | some value => some (.leaf value)
  | none => if q = [] ∨ ∃ rest, leaves (q ++ rest) ≠ none then some .dir else none

open Classical in
/-- The same, with the directories down to `path` kept. -/
noncomputable def scaffold (leaves : List N → Option L) (path : List N) : Namespace N L := fun q =>
  if q <+: path then some .dir else spread leaves q

/-- No other leaf is above or below the path. -/
def Clear (leaves : List N → Option L) (path : List N) : Prop :=
  ∀ q, leaves q ≠ none → q <+: path ∨ path <+: q → q = path

variable {leaves : List N → Option L} {path q : List N} {value : L}

theorem spread_leaf (here : leaves q = some value) : spread leaves q = some (.leaf value) := by
  rw [spread, here]

theorem spread_inner (none : leaves q = none) (below : ∃ rest, leaves (q ++ rest) ≠ .none) :
    spread leaves q = some .dir := by
  rw [spread, none]
  exact if_pos (.inr below)

theorem spread_none (nonempty : q ≠ []) (none : ∀ rest, leaves (q ++ rest) = .none) : spread leaves q = .none := by
  have here : leaves q = .none := by simpa using none []
  rw [spread, here]
  exact if_neg fun below => below.elim nonempty fun ⟨rest, present⟩ => present (none rest)

theorem Clear.none_above (clear : Clear leaves path) (above : q <+: path) (apart : q ≠ path) : leaves q = none :=
  not_not.mp fun present => apart (clear q present (.inl above))

theorem Clear.none_below (clear : Clear leaves path) (rest : List N) (below : rest ≠ []) :
    leaves (path ++ rest) = none :=
  not_not.mp fun present => below (by simpa using clear _ present (.inr (prefix_append ..)))

theorem not_prefix_self {rest : List N} (below : rest ≠ []) : ¬ path ++ rest <+: path := fun above => by
  have := above.length_le
  have := length_pos_iff.mpr below
  rw [length_append] at *
  omega

theorem prefix_dropLast (above : q <+: path) (apart : q ≠ path) : q <+: path.dropLast := by
  rcases eq_nil_or_concat' path with rfl | ⟨dirs, name, rfl⟩
  · exact absurd (prefix_nil.mp above) apart
  · rw [dropLast_concat]
    exact (prefix_concat_iff.mp above).resolve_left apart

theorem not_prefix_dropLast (nonempty : path ≠ []) (under : path <+: q) : ¬ q <+: path.dropLast := fun above => by
  have := (under.trans above).length_le
  have := length_pos_iff.mpr nonempty
  rw [length_dropLast] at *
  omega

/-- Removing an empty directory keeps those above it. -/
theorem scaffold_remove (nonempty : path ≠ []) (bare : ∀ rest, leaves (path ++ rest) = none) :
    (scaffold leaves path).remove path = scaffold leaves path.dropLast := by
  funext q
  unfold remove scaffold
  split
  · rename_i under
    rw [if_neg (not_prefix_dropLast nonempty under)]
    obtain ⟨rest, rfl⟩ := under
    refine (spread_none (by simp [nonempty]) fun rest' => ?_).symm
    rw [append_assoc]
    exact bare _
  · rename_i off
    by_cases above : q <+: path.dropLast
    · rw [if_pos above, if_pos (above.trans (List.dropLast_prefix path))]
    · rw [if_neg above, if_neg fun onWay => above (prefix_dropLast onWay fun same => off (same ▸ prefix_rfl))]

/-- Above a leaf, the directories are there anyway. -/
theorem scaffold_stop (above : ∀ q, q <+: path → leaves q = none)
    (below : path = [] ∨ ∃ rest, leaves (path ++ rest) ≠ none) : scaffold leaves path = spread leaves := by
  funext q
  unfold scaffold
  split
  · rename_i onWay
    obtain ⟨rest, rfl⟩ := onWay
    rw [spread, above q (prefix_append ..)]
    refine (if_pos ?_).symm
    rcases below with empty | ⟨rest', present⟩
    · exact .inl (append_eq_nil_iff.mp empty).1
    · exact .inr ⟨rest ++ rest', by rwa [← append_assoc]⟩
  · rfl

/-- A kept directory shows a child exactly when there is a leaf below it. -/
theorem scaffold_child (here : leaves path = none) :
    (∃ name, scaffold leaves path (path ++ [name]) ≠ none) ↔ ∃ rest, leaves (path ++ rest) ≠ none := by
  have child : ∀ name, scaffold leaves path (path ++ [name]) = spread leaves (path ++ [name]) := fun name =>
    if_neg (not_prefix_self (by simp))
  constructor
  · rintro ⟨name, shown⟩
    by_contra bare
    refine shown ?_
    rw [child]
    refine spread_none (by simp) fun rest => ?_
    rw [append_assoc]
    exact not_not.mp fun present => bare ⟨_, present⟩
  · rintro ⟨rest, present⟩
    cases rest with
    | nil => rw [append_nil] at present; exact absurd here present
    | cons name rest =>
      refine ⟨name, ?_⟩
      rw [child]
      cases leaf : leaves (path ++ [name]) with
      | some value => simp [spread_leaf leaf]
      | none => simp [spread_inner leaf ⟨rest, by simpa using present⟩]

variable [DecidableEq N]

/-- Away from the path and what is above it, an update of the path shows nothing. -/
theorem spread_update_away (off : ¬ q <+: path) (value : Option L) :
    spread (update leaves path value) q = spread leaves q := by
  have away : ∀ rest, update leaves path value (q ++ rest) = leaves (q ++ rest) := by
    intro rest
    refine update_of_ne ?_ ..
    rintro rfl
    exact off (prefix_append ..)
  have here : update leaves path value q = leaves q := by simpa using away []
  rw [spread, spread, here]
  cases leaves q with
  | some value => rfl
  | none =>
    have same : (q = [] ∨ ∃ rest, update leaves path value (q ++ rest) ≠ none) ↔
        (q = [] ∨ ∃ rest, leaves (q ++ rest) ≠ none) :=
      or_congr_right (exists_congr fun rest => by rw [away])
    by_cases below : q = [] ∨ ∃ rest, leaves (q ++ rest) ≠ none
    · exact (if_pos (same.mpr below)).trans (if_pos below).symm
    · exact (if_neg (same.not.mpr below)).trans (if_neg below).symm

/-- Putting a leaf. -/
theorem spread_put (clear : Clear leaves path) (nonempty : path ≠ []) (value : L) :
    (spread leaves).place path (lone value) = spread (update leaves path (some value)) := by
  funext q
  unfold place
  split
  · rename_i under
    obtain ⟨rest, rfl⟩ := under
    rw [drop_left]
    cases rest with
    | nil => rw [append_nil, spread_leaf (update_self ..), lone]
    | cons name rest =>
      have away : ¬ path ++ name :: rest <+: path := not_prefix_self (by simp)
      rw [spread_update_away away, spread_none (by simp)]
      · rfl
      · intro rest'
        rw [append_assoc]
        exact clear.none_below _ (by simp)
  · rename_i off
    split
    · rename_i above
      have apart : q ≠ path := fun same => off (same ▸ prefix_rfl)
      obtain ⟨rest, rfl⟩ := above
      refine (spread_inner ?_ ⟨rest, ?_⟩).symm
      · rw [update_of_ne apart]
        exact clear.none_above (prefix_append ..) apart
      · rw [update_self]
        exact Option.some_ne_none _
    · rename_i away
      exact (spread_update_away away _).symm

/-- Removing a leaf keeps the directories above it. -/
theorem spread_remove (clear : Clear leaves path) (nonempty : path ≠ []) (here : leaves path = some value) :
    (spread leaves).remove path = scaffold (update leaves path none) path.dropLast := by
  funext q
  unfold remove scaffold
  split
  · rename_i under
    rw [if_neg (not_prefix_dropLast nonempty under)]
    obtain ⟨rest, rfl⟩ := under
    refine (spread_none (by simp [nonempty]) fun rest' => ?_).symm
    by_cases same : path ++ rest ++ rest' = path
    · rw [same, update_self]
    · rw [update_of_ne same, append_assoc]
      exact clear.none_below _ fun empty => same (by rw [append_assoc, empty, append_nil])
  · rename_i off
    have apart : q ≠ path := fun same => off (same ▸ prefix_rfl)
    split
    · rename_i above
      have above := above.trans (List.dropLast_prefix path)
      obtain ⟨rest, rfl⟩ := above
      exact spread_inner (clear.none_above (prefix_append ..) apart) ⟨rest, by simp [here]⟩
    · rename_i away
      exact (spread_update_away (fun above => away (prefix_dropLast above apart)) _).symm

end spread

end Namespace

end Ducktape.Lib
