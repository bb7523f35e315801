import Mathlib.Data.Set.Basic
import Mathlib.Tactic.Common

/-! # Whole graphs

A graph whose nodes name their successors, or nothing where a node cannot be resolved. `Whole edges n`
says that everything reachable from `n` resolves: `n` lies in a set of resolving nodes closed under
succession. `Whole.intro` builds it from the successors, `Whole.next` goes back to them, and `Whole.map`
carries it to another graph. -/

namespace Ducktape.Lib

variable {N M : Type}

/-- Every node of the set resolves, to successors in the set. -/
def Closed (edges : N → Option (List N)) (nodes : Set N) : Prop :=
  ∀ n ∈ nodes, ∃ next, edges n = some next ∧ ∀ m ∈ next, m ∈ nodes

/-- Everything reachable from the node resolves. -/
def Whole (edges : N → Option (List N)) (n : N) : Prop := ∃ nodes, n ∈ nodes ∧ Closed edges nodes

namespace Whole

variable {edges edges' : N → Option (List N)}

/-- A whole node resolves, to whole successors. -/
theorem next {n : N} (whole : Whole edges n) : ∃ next, edges n = some next ∧ ∀ m ∈ next, Whole edges m := by
  obtain ⟨nodes, mem, closed⟩ := whole
  obtain ⟨next, resolved, inside⟩ := closed n mem
  exact ⟨next, resolved, fun m listed => ⟨nodes, inside m listed, closed⟩⟩

/-- A node that resolves to whole successors is whole. -/
theorem intro {n : N} {next : List N} (resolved : edges n = some next)
    (below : ∀ m ∈ next, Whole edges m) : Whole edges n := by
  refine ⟨{m | m = n ∨ Whole edges m}, .inl rfl, ?_⟩
  rintro m (rfl | whole)
  · exact ⟨next, resolved, fun k listed => .inr (below k listed)⟩
  · obtain ⟨next', resolved', below'⟩ := whole.next
    exact ⟨next', resolved', fun k listed => .inr (below' k listed)⟩

/-- Wholeness is carried along a map under which every successor of an image is an image of a
successor. -/
theorem map {edges' : M → Option (List M)} (f : N → M)
    (carries : ∀ n next, edges n = some next →
      ∃ next', edges' (f n) = some next' ∧ ∀ m ∈ next', ∃ k ∈ next, f k = m)
    {n : N} (whole : Whole edges n) : Whole edges' (f n) := by
  obtain ⟨nodes, mem, closed⟩ := whole
  refine ⟨f '' nodes, ⟨n, mem, rfl⟩, ?_⟩
  rintro _ ⟨m, inside, rfl⟩
  obtain ⟨next, resolved, below⟩ := closed m inside
  obtain ⟨next', resolved', from_⟩ := carries m next resolved
  refine ⟨next', resolved', fun k listed => ?_⟩
  obtain ⟨l, listed', rfl⟩ := from_ k listed
  exact ⟨l, below l listed', rfl⟩

/-- A graph that resolves what another resolves, in the same way, keeps its whole nodes. -/
theorem mono (extends_ : ∀ n next, edges n = some next → edges' n = some next) {n : N}
    (whole : Whole edges n) : Whole edges' n :=
  whole.map id fun m next resolved => ⟨next, extends_ m next resolved, fun k listed => ⟨k, listed, rfl⟩⟩

end Whole

end Ducktape.Lib
