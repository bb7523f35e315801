import Mathlib.Logic.Function.Basic

/-! # Staged stores

A typed key-value store with a staging overlay in front of it: writes made through the overlay are
seen by later reads and reach the store at a commit, in one batch. Keys carry the type of the record
under them, so a store of several record kinds is one function.

* `put` and `drop` change a store at one key.
* `StagedStore.get` is the staged-over-committed view; `get_stage` and `get_delete` say that a write
  changes it at one key.
* `commit` keeps the view, `abort` falls back to the store. -/

namespace Ducktape.Lib

open Function

/-- The record under each key, if there is one. -/
abbrev Records (K : Type) (V : K → Type) := (k : K) → Option (V k)

section Records

variable {K : Type} {V : K → Type} [DecidableEq K] (s : Records K V) {k other : K}

/-- The store with `v` under `k`. -/
def put (k : K) (v : V k) : Records K V := update s k (some v)

/-- The store with nothing under `k`. -/
def drop (k : K) : Records K V := update s k none

@[simp] theorem put_self (v : V k) : put s k v k = some v := update_self ..

@[simp] theorem put_of_ne (ne : other ≠ k) (v : V k) : put s k v other = s other :=
  update_of_ne ne ..

@[simp] theorem drop_self : drop s k k = none := update_self ..

@[simp] theorem drop_of_ne (ne : other ≠ k) : drop s k other = s other :=
  update_of_ne ne ..

end Records

/-- Staged writes: `some (some v)` upserts, `some none` deletes, `none` leaves the key alone. -/
abbrev Pending (K : Type) (V : K → Type) := (k : K) → Option (Option (V k))

/-- A store and the writes staged over it. -/
structure StagedStore (K : Type) (V : K → Type) where
  store : Records K V
  pending : Pending K V

namespace StagedStore

variable {K : Type} {V : K → Type}

/-- A store with nothing staged. -/
def new (store : Records K V) : StagedStore K V := ⟨store, fun _ => none⟩

/-- The staged-over-committed view. -/
def get (s : StagedStore K V) : Records K V := fun k => (s.pending k).getD (s.store k)

/-- Publish what is staged. -/
def commit (s : StagedStore K V) : StagedStore K V := new s.get

/-- Drop what is staged. -/
def abort (s : StagedStore K V) : StagedStore K V := new s.store

variable (s : StagedStore K V)

variable [DecidableEq K]

/-- Stage a record. -/
def stage (s : StagedStore K V) (k : K) (v : V k) : StagedStore K V :=
  { s with pending := update s.pending k (some (some v)) }

/-- Stage a deletion. -/
def delete (s : StagedStore K V) (k : K) : StagedStore K V :=
  { s with pending := update s.pending k (some none) }

variable (k : K)

@[simp] theorem store_stage (v : V k) : (s.stage k v).store = s.store := rfl

@[simp] theorem store_delete : (s.delete k).store = s.store := rfl

@[simp] theorem get_stage (v : V k) : (s.stage k v).get = put s.get k v := by
  funext i
  by_cases same : i = k
  · subst same
    simp [get, stage]
  · simp [get, stage, same]

@[simp] theorem get_delete : (s.delete k).get = drop s.get k := by
  funext i
  by_cases same : i = k
  · subst same
    simp [get, delete]
  · simp [get, delete, same]

end StagedStore

end Ducktape.Lib
