import Mathlib.Logic.Function.Basic
import Mathlib.Data.List.Basic
import Mathlib.Tactic.Common

/-! # Pointer forests

A partial parent map `link : ι → Option (Option ι)`: a node is absent, a root, or points at its
parent. `Chain link i nodes` says that the walk up from `i` passes exactly `nodes` and ends at a
root; `Grounded link i` that such a walk exists.

* `Chain.unique`, `Chain.nodup`: a walk is determined by its start and visits no node twice.
* `Grounded.relink`: pointing a node at a grounded one whose chain avoids it keeps every node
  grounded, so a forest stays one.
* `Grounded.extend`: so does adding a node. -/

namespace Ducktape.Lib

open Function List

variable {ι : Type}

/-- The nodes from `i` up to its root, in order. -/
inductive Chain (link : ι → Option (Option ι)) : ι → List ι → Prop
  | root {i : ι} : link i = some none → Chain link i [i]
  | step {i j : ι} {nodes : List ι} :
      link i = some (some j) → Chain link j nodes → Chain link i (i :: nodes)

/-- The walk up from `i` ends at a root. -/
def Grounded (link : ι → Option (Option ι)) (i : ι) : Prop := ∃ nodes, Chain link i nodes

namespace Chain

variable {link : ι → Option (Option ι)} {i j k : ι} {nodes others : List ι}

section

variable (chain : Chain link i nodes)
include chain

theorem unique (other : Chain link i others) : nodes = others := by
  induction chain generalizing others with
  | root top =>
    cases other with
    | root => rfl
    | step up => simp [top] at up
  | step up _ ih =>
    cases other with
    | root top => simp [top] at up
    | step up' above =>
      rw [up, Option.some_inj, Option.some_inj] at up'
      subst up'
      rw [ih above]

/-- The walk from a node on a chain is the rest of that chain. -/
theorem suffix_of_mem (mem : k ∈ nodes) : ∃ above, Chain link k above ∧ above <:+ nodes := by
  induction chain with
  | root top =>
    rw [mem_singleton] at mem
    subst mem
    exact ⟨_, .root top, suffix_rfl⟩
  | step up above ih =>
    rcases mem_cons.mp mem with rfl | mem
    · exact ⟨_, .step up above, suffix_rfl⟩
    · obtain ⟨rest, chain, suffix⟩ := ih mem
      exact ⟨rest, chain, suffix.trans (suffix_cons _ _)⟩

theorem nodup : nodes.Nodup := by
  induction chain with
  | root => simp
  | step up above ih =>
    refine nodup_cons.mpr ⟨fun again => ?_, ih⟩
    -- a second visit would make the walk its own proper suffix
    obtain ⟨rest, chain, suffix⟩ := above.suffix_of_mem again
    have short := suffix.length_le
    rw [← (step up above).unique chain, length_cons] at short
    omega

theorem defined (mem : k ∈ nodes) : link k ≠ none := by
  obtain ⟨_, above, _⟩ := chain.suffix_of_mem mem
  cases above with
  | root top => simp [top]
  | step up => simp [up]

/-- The last node of a walk is a root. -/
theorem ends_at_root : ∃ top, nodes.getLast? = some top ∧ link top = some none := by
  induction chain with
  | root top => exact ⟨_, rfl, top⟩
  | step _ above ih =>
    obtain ⟨top, last, isRoot⟩ := ih
    refine ⟨top, ?_, isRoot⟩
    cases above <;> exact last

/-- A change at a node off the chain leaves the chain alone. -/
theorem update [DecidableEq ι] (off : k ∉ nodes) (value : Option (Option ι)) :
    Chain (update link k value) i nodes := by
  induction chain with
  | @root i top =>
    have ne : i ≠ k := by rintro rfl; exact off mem_cons_self
    exact .root (by rw [update_of_ne ne, top])
  | @step i j nodes up _ ih =>
    have ne : i ≠ k := by rintro rfl; exact off mem_cons_self
    exact .step (by rw [update_of_ne ne, up]) (ih fun mem => off (mem_cons_of_mem _ mem))

end

end Chain

namespace Grounded

variable {link : ι → Option (Option ι)} {i j k : ι} [DecidableEq ι]

/-- Pointing `k` at a node whose chain avoids it keeps every grounded node grounded. -/
theorem relink {above : List ι} (chain : Chain link j above) (off : k ∉ above)
    (grounded : Grounded link i) : Grounded (update link k (some (some j))) i := by
  obtain ⟨nodes, walk⟩ := grounded
  have target := chain.update off (some (some j))
  induction walk with
  | @root i top =>
    by_cases same : i = k
    · subst same
      exact ⟨_, .step (update_self ..) target⟩
    · exact ⟨_, .root (by rw [update_of_ne same, top])⟩
  | @step i up nodes next _ ih =>
    by_cases same : i = k
    · subst same
      exact ⟨_, .step (update_self ..) target⟩
    · obtain ⟨rest, walk⟩ := ih
      exact ⟨_, .step (by rw [update_of_ne same, next]) walk⟩

/-- Adding a node leaves every grounded node grounded. -/
theorem extend (absent : link k = none) (value : Option (Option ι)) (grounded : Grounded link i) :
    Grounded (update link k value) i := by
  obtain ⟨nodes, walk⟩ := grounded
  exact ⟨nodes, walk.update (fun mem => walk.defined mem absent) value⟩

end Grounded

end Ducktape.Lib
