import Ducktape.Duckfs.TreeView

/-! # Tree edits refine plain namespaces

Each operation of a tree edit is accepted exactly when the plain namespace operation is, shows the plain
result when it is accepted, and shows what it showed before when it is refused. -/

namespace Ducktape.Duckfs

open Lib Lib.Attempt Option Node List Namespace TreeEdit Except Children

variable {H : Hash} {look : (q : Read) → q.Answer} {node node' : Node} {create : Bool}
  {dirs : List String} {result : Except String Unit} {name : String}

/-! ## Sequencing edits -/

@[simp] theorem value_edit_throw {α : Type} (e : String) (node : Node) :
    value look ((throw e : Edit α) node) = .ok (.error e, node) := rfl

theorem value_edit_bind {α β : Type} (op : Edit α) (k : α → Edit β) (node : Node) :
    value look ((op >>= k) node) = (value look (op node)).bind fun ran =>
      match ran.1 with
      | .ok a => value look (k a ran.2)
      | .error e => .ok (.error e, ran.2) := by
  have split : value look ((op >>= k) node) =
      value look (op node >>= fun ran => ExceptT.bindCont k ran.1 ran.2) := rfl
  rw [split, value_bind]
  congr 1
  funext ran
  obtain ⟨result, node'⟩ := ran
  cases result <;> rfl

/-! ## Where a navigation is stopped -/

variable {path : List String}

theorem denote_append_none (rest : List String) (absent : node.denote H look path = none) :
    node.denote H look (path ++ rest) = none := by
  have missing : node.find H look path = none := map_eq_none_iff.mp absent
  rw [denote, find_append, missing]
  rfl

variable {rest : List String}

theorem denote_append_leaf {entry : TreeEntry} (below : rest ≠ [])
    (leaf : node.denote H look path = some (.leaf entry)) :
    node.denote H look (path ++ rest) = none := by
  obtain ⟨found, here, isLeaf⟩ := map_eq_some_iff.mp leaf
  obtain ⟨name, rest, rfl⟩ := exists_cons_of_ne_nil below
  have closed : found.children? H look = none := by
    by_contra opened
    obtain ⟨children, opened⟩ := ne_none_iff_exists'.mp opened
    rw [item_of_children opened] at isLeaf
    cases isLeaf
  rw [denote, find_append, here, bind_some, find_cons, closed]
  rfl

/-- Nothing stands below a directory that cannot be reached. -/
theorem Stopped.absent (stopped : Stopped H look create dirs node) (below : rest ≠ []) :
    node.denote H look (dirs ++ rest) = none := by
  obtain ⟨path, ⟨tail, rfl⟩, ⟨entry, leaf⟩ | ⟨-, missing⟩⟩ := stopped
  · rw [append_assoc]
    exact denote_append_leaf (by simp [below]) leaf
  · rw [append_assoc]
    exact denote_append_none _ missing

/-- A directory that cannot be reached is not shown. -/
theorem Stopped.not_dir (stopped : Stopped H look create dirs node) :
    node.denote H look dirs ≠ some .dir := by
  obtain ⟨path, ⟨tail, rfl⟩, ⟨entry, leaf⟩ | ⟨-, missing⟩⟩ := stopped
  · cases tail with
    | nil => simp [leaf]
    | cons name tail => simp [denote_append_leaf (cons_ne_nil name tail) leaf]
  · simp [denote_append_none tail missing]

/-- With creation, only a leaf stops a descent. -/
theorem stopped_create (stopped : Stopped H look true dirs node) : ¬(node.denote H look).Open dirs := by
  obtain ⟨path, above, ⟨entry, leaf⟩ | ⟨create, -⟩⟩ := stopped
  · exact fun clear => clear path above entry leaf
  · cases create

theorem Edited.open {before after : Children}
    (edited : Edited H look create before after dirs node node') : (node.denote H look).Open dirs := by
  intro path above entry leaf
  obtain isDir | ⟨-, absent⟩ := edited.denote_above above
  · rw [isDir] at leaf; cases leaf
  · rw [absent] at leaf; cases leaf

/-! ## What an edit shows -/

section Shows

variable {create : Bool} {before after : Children} {dirs : List String} {node node' : Node} {name : String}

theorem not_prefix_concat (notAbove : ¬path <+: dirs ++ [name]) : ¬path <+: dirs :=
  fun above => notAbove (above.trans (prefix_append dirs [name]))

theorem prefix_of_concat (above : path <+: dirs ++ [name]) (notUnder : ¬dirs ++ [name] <+: path) :
    path <+: dirs := by
  obtain short | whole := prefix_concat_iff.mp above
  · exact absurd (by rw [short]) notUnder
  · exact whole

/-- Inserting a node puts what it shows at the path. -/
theorem Edited.denote_insert {sub : Node}
    (edited : Edited H look create before (before.insert name sub) dirs node node') :
    node'.denote H look = (node.denote H look).place (dirs ++ [name]) (sub.denote H look) := by
  funext path
  rw [place]
  split
  · next under =>
      obtain ⟨rest, rfl⟩ := under
      rw [drop_left, append_assoc, denote, edited.find_under, singleton_append,
        find_dir, lookup_insert, if_pos rfl]
      rfl
  · next notUnder =>
      split
      · next above =>
          obtain ⟨children, found⟩ := edited.find_above (prefix_of_concat above notUnder)
          rw [denote, found]
          rfl
      · next notAbove =>
          have same : ∀ key, name ≠ key → (before.insert name sub).lookup key = before.lookup key :=
            fun key apart => by rw [lookup_insert, if_neg apart]
          rw [denote, edited.find_kept same notUnder (not_prefix_concat notAbove)]
          rfl

/-- Erasing a name below directories takes its subtree away. -/
theorem Edited.denote_erase (edited : Edited H look false before (before.erase name) dirs node node') :
    node'.denote H look = (node.denote H look).remove (dirs ++ [name]) := by
  funext path
  rw [remove]
  split
  · next under =>
      obtain ⟨rest, rfl⟩ := under
      rw [append_assoc, denote, edited.find_under, singleton_append, find_dir,
        lookup_erase, if_pos rfl]
      rfl
  · next notUnder =>
      by_cases above : path <+: dirs
      · obtain ⟨children, found⟩ := edited.find_above above
        obtain isDir | ⟨created, -⟩ := edited.denote_above above
        · rw [isDir, denote, found]
          rfl
        · cases created
      · have same : ∀ key, name ≠ key → (before.erase name).lookup key = before.lookup key :=
          fun key apart => by rw [lookup_erase, if_neg apart]
        rw [denote, edited.find_kept same notUnder above]
        rfl

/-- A navigation below directories that changes nothing shows what was shown. -/
theorem Edited.denote_same (edited : Edited H look create before before dirs node node')
    (solid : ∀ path, path <+: dirs → node.denote H look path = some .dir) :
    node'.denote H look = node.denote H look := by
  funext path
  by_cases above : path <+: dirs
  · obtain ⟨children, found⟩ := edited.find_above above
    rw [solid path above, denote, found]
    rfl
  · by_cases under : dirs <+: path
    · obtain ⟨rest, rfl⟩ := under
      cases rest with
      | nil => exact absurd (by rw [append_nil]) above
      | cons key rest =>
        rw [denote, edited.find_under, find_dir, ← edited.find_before]
        rfl
    · rw [denote, edited.find_apart under above]
      rfl

/-- Without creation, the way down consists of directories. -/
theorem Edited.solid (edited : Edited H look false before after dirs node node') (path : List String)
    (above : path <+: dirs) : node.denote H look path = some .dir := by
  obtain isDir | ⟨created, -⟩ := edited.denote_above above
  · exact isDir
  · cases created

section

variable (edited : Edited H look create before after dirs node node')
include edited

/-- Above something that is shown, the way down consists of directories. -/
theorem Edited.solid_of_present (present : node.denote H look (dirs ++ rest) ≠ none)
    (path : List String) (above : path <+: dirs) :
    node.denote H look path = some .dir := by
  obtain isDir | ⟨-, absent⟩ := edited.denote_above above
  · exact isDir
  · obtain ⟨tail, rfl⟩ := above
    rw [append_assoc] at present
    exact absurd (denote_append_none _ absent) present

theorem Edited.denote_child (name : String) :
    (node.denote H look).below (dirs ++ [name]) =
      fun path => (before.lookup name).bind fun child => child.denote H look path := by
  funext path
  rw [Namespace.below, List.append_assoc, Node.denote, List.singleton_append, edited.find_before,
    map_bind]
  rfl

theorem Edited.denote_target (name : String) :
    node.denote H look (dirs ++ [name]) = (before.lookup name).map item := by
  have child := congrFun (edited.denote_child name) []
  rw [Namespace.below, List.append_nil] at child
  rw [child]
  cases before.lookup name <;> rfl

end

end Shows

/-! ## Each operation refines its plain one -/

/-- An edit is accepted exactly when the plain operation is, and shows what it gives. -/
def Refines (H : Hash) (look : (q : Read) → q.Answer) (edit : Edit Unit) (op : Namespace.Op String TreeEntry) :
    Prop :=
  ∀ node result node', value look (edit node) = .ok (result, node') →
    (result = .ok () ∧ op.Accepts (node.denote H look) ∧
      node'.denote H look = op.apply (node.denote H look)) ∨
    ((∃ e, result = .error e) ∧ ¬op.Accepts (node.denote H look) ∧
      node'.denote H look = node.denote H look)

theorem put_refines (segs : List String) (entry : TreeEntry) :
    Refines H look (put H segs entry) (.put segs ((ref entry).denote H look)) := by
  intro node result node' ran
  obtain rfl | ⟨dirs, name, rfl⟩ := eq_nil_or_concat' segs
  · obtain ⟨rfl, rfl⟩ : error _ = result ∧ node = node' := by simpa [TreeEdit.put] using ran
    exact .inr ⟨⟨_, rfl⟩, fun accepted => accepted.1 rfl, rfl⟩
  simp only [TreeEdit.put, getLast?_concat, dropLast_concat] at ran
  obtain ⟨before, edited, rfl⟩ | ⟨stopped, failed, same⟩ := value_navigate ran
  · refine .inl ⟨rfl, ⟨by simp, ?_⟩, edited.denote_insert⟩
    rw [dropLast_concat]
    exact edited.open
  · refine .inr ⟨failed, fun accepted => stopped_create stopped ?_, same⟩
    simpa using accepted.2

theorem denote_empty : (dir nil).denote H look = emptyDir := by
  funext path
  cases path with
  | nil | cons => rfl

theorem mkdir_refines (segs : List String) :
    Refines H look (mkdir H segs) (.mkdir segs) := by
  intro node result node' ran
  obtain rfl | ⟨dirs, name, rfl⟩ := eq_nil_or_concat' segs
  · obtain ⟨rfl, rfl⟩ : error _ = result ∧ node = node' := by simpa [mkdir] using ran
    exact .inr ⟨⟨_, rfl⟩, fun accepted => accepted.1 rfl, rfl⟩
  simp only [mkdir, getLast?_concat, dropLast_concat] at ran
  obtain ⟨before, edited, rfl⟩ | ⟨stopped, failed, same⟩ := value_navigate ran
  · have target := edited.denote_target name
    cases there : before.lookup name with
    | some child =>
      rw [there] at target
      simp only [there] at edited
      refine .inr ⟨⟨_, rfl⟩, fun accepted => ?_, ?_⟩
      · rw [accepted.2.2] at target
        cases target
      · exact edited.denote_same (edited.solid_of_present (by rw [target]; simp))
    | none =>
      rw [there] at target
      simp only [there] at edited
      refine .inl ⟨rfl, ⟨by simp, ?_, target⟩, ?_⟩
      · rw [dropLast_concat]
        exact edited.open
      · rw [edited.denote_insert, denote_empty]
        rfl
  · refine .inr ⟨failed, fun accepted => stopped_create stopped ?_, same⟩
    simpa using accepted.2.1

theorem rm_refines (segs : List String) : Refines H look (rm H segs) (.rm segs) := by
  intro node result node' ran
  obtain rfl | ⟨dirs, name, rfl⟩ := eq_nil_or_concat' segs
  · obtain ⟨rfl, rfl⟩ : error _ = result ∧ node = node' := by simpa [rm] using ran
    exact .inr ⟨⟨_, rfl⟩, fun accepted => accepted.1 rfl, rfl⟩
  simp only [rm, getLast?_concat, dropLast_concat] at ran
  obtain ⟨before, edited, rfl⟩ | ⟨stopped, failed, same⟩ := value_navigate ran
  · have target := edited.denote_target name
    cases there : before.lookup name with
    | some child =>
      rw [there] at target
      simp only [there] at edited
      exact .inl ⟨rfl, ⟨by simp, by rw [target]; simp⟩, edited.denote_erase⟩
    | none =>
      rw [there] at target
      simp only [there] at edited
      refine .inr ⟨⟨_, rfl⟩, fun accepted => accepted.2 target, ?_⟩
      -- nothing stood under the name, so erasing it shows nothing new
      rw [edited.denote_erase]
      funext path
      rw [remove]
      split
      · next under =>
          obtain ⟨rest, rfl⟩ := under
          exact (denote_append_none rest target).symm
      · rfl
  · exact .inr ⟨failed, fun accepted => accepted.2 (stopped.absent (by simp)), same⟩

/-! ## Moves -/

/-- A navigation that only checks shows what was shown. -/
theorem value_check {f : Children → Except String Unit}
    (ran : value look (descend H false dirs (fun parent => (f parent, parent)) node) = .ok (result, node')) :
    node'.denote H look = node.denote H look ∧
      ((∃ before, result = f before ∧ Edited H look false before before dirs node node') ∨
        (Stopped H look false dirs node ∧ ∃ e, result = .error e)) := by
  obtain ⟨before, edited, rfl⟩ | ⟨stopped, failed, same⟩ := value_navigate ran
  · exact ⟨edited.denote_same edited.solid, .inl ⟨before, rfl, edited⟩⟩
  · exact ⟨same, .inr ⟨stopped, failed⟩⟩

theorem prefix_iff_take {source target : List String} :
    (source.length ≤ target.length ∧ target.take source.length = source) ↔ source <+: target := by
  rw [← prefix_iff_eq_take.trans eq_comm, and_iff_right_iff_imp]
  exact List.IsPrefix.length_le

/-- The source is there, or the move is refused. -/
theorem value_expectPresent
    (ran : value look (descend H false dirs (fun parent => (expectPresent name parent, parent)) node) =
      .ok (result, node')) : node'.denote H look = node.denote H look ∧
      (result = .ok () ∧ node.denote H look (dirs ++ [name]) ≠ none ∨
        (∃ e, result = .error e) ∧ node.denote H look (dirs ++ [name]) = none) := by
  obtain ⟨same, ⟨before, rfl, edited⟩ | ⟨stopped, failed⟩⟩ := value_check ran
  · refine ⟨same, ?_⟩
    rw [edited.denote_target name]
    cases there : before.lookup name with
    | some child => exact .inl ⟨by simp [expectPresent, there], by simp⟩
    | none => exact .inr ⟨⟨_, if_neg (by simp [there])⟩, rfl⟩
  · exact ⟨same, .inr ⟨failed, stopped.absent (by simp)⟩⟩

/-- The target's parent is a directory and the target is free, or the move is refused. -/
theorem value_expectFree
    (ran : value look (descend H false dirs (fun parent => (expectFree name parent, parent)) node) =
      .ok (result, node')) : node'.denote H look = node.denote H look ∧
      (result = .ok () ∧ (∀ path, path <+: dirs → node.denote H look path = some .dir) ∧
          node.denote H look (dirs ++ [name]) = none ∨ (∃ e, result = .error e) ∧
          ¬(node.denote H look dirs = some .dir ∧ node.denote H look (dirs ++ [name]) = none)) := by
  obtain ⟨same, ⟨before, rfl, edited⟩ | ⟨stopped, failed⟩⟩ := value_check ran
  · refine ⟨same, ?_⟩
    rw [edited.denote_target name]
    cases there : before.lookup name with
    | some child => exact .inr ⟨⟨_, if_pos (by simp [there])⟩, by simp⟩
    | none => exact .inl ⟨by simp [expectFree, there], edited.solid, rfl⟩
  · exact ⟨same, .inr ⟨failed, fun both => stopped.not_dir both.1⟩⟩

/-- What is there is lifted out, with everything below it. -/
theorem value_takeChild {result : Except String Node}
    (there : node.denote H look (dirs ++ [name]) ≠ none)
    (ran : value look (descend H false dirs (takeChild name) node) = .ok (result, node')) :
    ∃ moved, result = .ok moved ∧ moved.denote H look = (node.denote H look).below (dirs ++ [name]) ∧
      node'.denote H look = (node.denote H look).remove (dirs ++ [name]) := by
  obtain ⟨before, edited, rfl⟩ | ⟨stopped, -⟩ := value_navigate ran
  · rw [edited.denote_target name] at there
    cases found : before.lookup name with
    | none => exact absurd (by rw [found]; rfl) there
    | some moved =>
      rw [takeChild, found] at edited
      refine ⟨moved, by rw [takeChild, found], ?_, edited.denote_erase⟩
      rw [edited.denote_child name, found]
      rfl
  · exact absurd (stopped.absent (by simp)) there

theorem mv_refines (source target : List String) :
    Refines H look (mv H source target) (.mv source target) := by
  intro node result node' ran
  obtain rfl | ⟨sourceDirs, sourceName, rfl⟩ := eq_nil_or_concat' source
  · obtain ⟨rfl, rfl⟩ : error _ = result ∧ node = node' := by simpa [mv] using ran
    exact .inr ⟨⟨_, rfl⟩, fun accepted => accepted.1 rfl, rfl⟩
  obtain rfl | ⟨targetDirs, targetName, rfl⟩ := eq_nil_or_concat' target
  · obtain ⟨rfl, rfl⟩ : error _ = result ∧ node = node' := by simpa [mv] using ran
    exact .inr ⟨⟨_, rfl⟩, fun accepted => accepted.2.1 rfl, rfl⟩
  simp only [mv, getLast?_concat, dropLast_concat, prefix_iff_take] at ran
  split at ran
  · next inside =>
      obtain ⟨rfl, rfl⟩ : error _ = result ∧ node = node' := by simpa using ran
      exact .inr ⟨⟨_, rfl⟩, fun accepted => accepted.2.2.1 inside, rfl⟩
  · next outside =>
      simp only [value_edit_bind, bind_ok_iff, Prod.exists] at ran
      obtain ⟨first, node₁, ran₁, ran⟩ := ran
      obtain ⟨same₁, ⟨rfl, there⟩ | ⟨⟨e, rfl⟩, missing⟩⟩ := value_expectPresent ran₁
      · simp only [bind_ok_iff, Prod.exists] at ran
        obtain ⟨second, node₂, ran₂, ran⟩ := ran
        obtain ⟨same₂, ⟨rfl, solid, free⟩ | ⟨⟨e, rfl⟩, taken⟩⟩ := value_expectFree ran₂
        · simp only [bind_ok_iff, Prod.exists] at ran
          obtain ⟨third, node₃, ran₃, ran⟩ := ran
          rw [same₁] at same₂ solid free
          obtain ⟨moved, rfl, movedIs, same₃⟩ := value_takeChild (by rwa [same₂]) ran₃
          rw [same₂] at movedIs same₃
          obtain ⟨before, edited, rfl⟩ | ⟨⟨path, above, stop⟩, -⟩ := value_navigate ran
          · refine .inl ⟨rfl, ⟨by simp, by simp, outside, there, ?_, free⟩, ?_⟩
            · rw [dropLast_concat]
              exact solid targetDirs (prefix_refl _)
            · rw [edited.denote_insert, same₃, movedIs]
              rfl
          · -- the target's parents are not under the source, so lifting it did not touch them
            have apart : ¬sourceDirs ++ [sourceName] <+: path := fun under =>
              outside (under.trans (above.trans (prefix_append _ _)))
            have kept : node₃.denote H look path = some .dir := by
              rw [same₃, remove, if_neg apart, solid path above]
            simp [kept] at stop
        · obtain ⟨rfl, rfl⟩ : error e = result ∧ node₂ = node' := by simpa using ran
          rw [same₁] at same₂ taken
          refine .inr ⟨⟨e, rfl⟩, fun accepted => taken ⟨?_, accepted.2.2.2.2.2⟩, same₂⟩
          simpa using accepted.2.2.2.2.1
      · obtain ⟨rfl, rfl⟩ : error e = result ∧ node₁ = node' := by simpa using ran
        exact .inr ⟨⟨e, rfl⟩, fun accepted => accepted.2.2.2.1 missing, same₁⟩

end Ducktape.Duckfs
