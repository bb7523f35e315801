import Ducktape.Lib.Namespace
import Ducktape.Lib.Reach
import Ducktape.Duckfs.Tree

/-! # What an overlay shows

`Node.find` is the node an overlay shows at a path, decoding references on the way, and `Node.denote` the
plain namespace it stands for. `Edited` says what one navigation did to an overlay: `value_navigate`
reads it off the navigation, and `Edited.find_under`, `Edited.find_apart`, `Edited.find_above` say what
stands at every path afterwards. -/

namespace Ducktape.Duckfs

open Lib Lib.Attempt Std Node List Option Except Children

variable (H : Hash) (look : (q : Read) → q.Answer)

/-! ## Lookups -/

namespace Children

theorem lookup_insert (name key : String) (node : Node) : ∀ children : Children,
    (children.insert name node).lookup key = if name = key then some node else children.lookup key
  | .nil => rfl
  | .cons other child rest => by
      have ih := lookup_insert name key node rest
      rw [insert]
      split
      · rfl
      · next same =>
          obtain rfl := Std.LawfulEqOrd.eq_of_compare same
          by_cases hit : name = key <;> simp [lookup, hit]
      · next above =>
          have apart : other ≠ name := by
            rintro rfl
            simp at above
          by_cases hit : name = key
          · subst hit
            simp [lookup, apart, ih]
          · simp [lookup, hit, ih]

theorem lookup_erase (name key : String) : ∀ children : Children,
    (children.erase name).lookup key = if name = key then none else children.lookup key
  | .nil => by simp [erase, lookup]
  | .cons other child rest => by
      have ih := lookup_erase name key rest
      by_cases drop : other = name
      · subst drop
        rw [erase, if_pos rfl, ih, lookup]
        split <;> rfl
      · by_cases hit : name = key
        · subst hit
          simp [erase, lookup, drop, ih]
        · simp [erase, lookup, drop, hit, ih]

theorem lookup_ofEntries (entries : ExtTreeMap String TreeEntry) (name : String) :
    (ofEntries entries.toList).lookup name = entries[name]?.map ref := by
  have listed : ∀ pairs : List (String × TreeEntry),
      (ofEntries pairs).lookup name = (pairs.find? fun pair => pair.1 = name).map fun pair => .ref pair.2 := by
    intro pairs
    induction pairs with
    | nil => rfl
    | cons pair rest ih =>
      by_cases hit : pair.1 = name <;> simp [ofEntries, lookup, hit, ih]
  rw [listed]
  cases found : entries.toList.find? fun pair => decide (pair.1 = name) with
  | some pair =>
    have named : pair.1 = name := by simpa using find?_some found
    have mem : entries[pair.1]? = some pair.2 :=
      ExtTreeMap.mem_toList_iff_getElem?_eq_some.mp (mem_of_find?_eq_some found)
    rw [← named, mem]
    rfl
  | none =>
    have absent : entries[name]? = none := by
      by_contra present
      obtain ⟨entry, here⟩ := ne_none_iff_exists'.mp present
      have mem := ExtTreeMap.mem_toList_iff_getElem?_eq_some.mpr here
      simpa using find?_eq_none.mp found _ mem
    rw [absent]
    rfl

end Children

/-! ## The node at a path -/

/-- The entries of a resolvable directory. -/
def entriesOf (id : ObjectId) : Option (ExtTreeMap String TreeEntry) :=
  (value look (fetchTree H id)).toOption

/-- The children a node shows, if it is a directory that resolves. -/
def Node.children? : Node → Option Children
  | .dir children => some children
  | .ref entry =>
    if entry.kind = .dir then (entriesOf H look entry.id).map fun entries => .ofEntries entries.toList
    else none

/-- The node an overlay shows at a path. -/
def Node.find : List String → Node → Option Node
  | [], node => some node
  | name :: path, node =>
    (node.children? H look).bind fun children => (children.lookup name).bind (find path)

/-- What a node is in a plain namespace. -/
def Node.item : Node → Item TreeEntry
  | .dir _ => .dir
  | .ref entry => if entry.kind = .dir then .dir else .leaf entry

/-- The plain namespace an overlay stands for. -/
def Node.denote (node : Node) : Namespace String TreeEntry := fun path =>
  (node.find H look path).map Node.item

variable {H look} {entries : ExtTreeMap String TreeEntry} {children : Children} {node : Node}

theorem entriesOf_eq_some {id : ObjectId} :
    entriesOf H look id = some entries ↔ value look (fetchTree H id) = .ok entries := by
  rw [entriesOf]
  cases value look (fetchTree H id) <;> simp [Except.toOption]

/-- A tree is fetched when its object is there and decodes. -/
theorem value_fetchTree {id : ObjectId} : value look (fetchTree H id) = .ok entries ↔
      ∃ body, look (.get id) = some (.tree, body) ∧ TreeObj.decode H body = .ok ⟨entries⟩ := by
  simp only [fetchTree, Access.get, value_bind, value_query, Except.bind]
  cases look (.get id) with
  | none => simp
  | some object =>
    obtain ⟨kind, body⟩ := object
    by_cases isTree : kind = .tree
    · subst isTree
      cases decoded : TreeObj.decode H body with
      | error e => simp [decoded]
      | ok tree =>
        obtain ⟨found⟩ := tree
        simp [decoded]
    · simp [isTree]

@[simp] theorem Node.find_nil (node : Node) : node.find H look [] = some node := rfl

theorem Node.find_cons (node : Node) (name : String) (path : List String) :
    node.find H look (name :: path) =
      (node.children? H look).bind fun children => (children.lookup name).bind (find H look path) := rfl

@[simp] theorem Node.find_dir (children : Children) (name : String) (path : List String) :
    (dir children).find H look (name :: path) =
      (children.lookup name).bind (find H look path) := rfl

theorem Node.find_append (node : Node) (path rest : List String) :
    node.find H look (path ++ rest) = (node.find H look path).bind (find H look rest) := by
  induction path generalizing node with
  | nil => rfl
  | cons name path ih =>
    rw [cons_append, find_cons, find_cons, bind_assoc]
    congr 1
    funext children
    rw [bind_assoc]
    congr 1
    funext child
    exact ih child

@[simp] theorem Node.children?_dir (children : Children) :
    (dir children).children? H look = some children := rfl

@[simp] theorem Node.item_dir (children : Children) : (dir children).item = .dir := rfl

@[simp] theorem Node.denote_nil (node : Node) : node.denote H look [] = some node.item := rfl

theorem Node.denote_cons (node : Node) (name : String) (path : List String) :
    node.denote H look (name :: path) =
      (node.children? H look).bind fun children =>
        (children.lookup name).bind fun child => child.denote H look path := by
  rw [denote, find_cons, map_bind]
  congr 1
  funext children
  exact map_bind

/-- Only directories have children. -/
theorem Node.item_of_children (opened : node.children? H look = some children) : node.item = .dir := by
  cases node with
  | dir _ => rfl
  | ref entry =>
    rw [children?] at opened
    split at opened
    · next isDir => rw [item, if_pos isDir]
    · cases opened

/-! ## What a navigation does -/

/-- One navigation along `dirs` replaced the children `before` it arrived at by `after`. -/
inductive Edited (H : Hash) (look : (q : Read) → q.Answer) (create : Bool) (before after : Children) :
    List String → Node → Node → Prop
  | here {node : Node} (opened : node.children? H look = some before) :
      Edited H look create before after [] node (.dir after)
  | through {node child child' : Node} {children : Children} {seg : String} {dirs : List String}
      (opened : node.children? H look = some children) (present : children.lookup seg = some child)
      (below : Edited H look create before after dirs child child') :
      Edited H look create before after (seg :: dirs) node (.dir (children.insert seg child'))
  | fresh {node child' : Node} {children : Children} {seg : String} {dirs : List String}
      (creates : create = true) (opened : node.children? H look = some children)
      (absent : children.lookup seg = none)
      (below : Edited H look create before after dirs (.dir .nil) child') :
      Edited H look create before after (seg :: dirs) node (.dir (children.insert seg child'))

/-- The descent was stopped: by a leaf on the way, or by a missing directory it may not create. -/
def Stopped (H : Hash) (look : (q : Read) → q.Answer) (create : Bool) (dirs : List String) (node : Node) :
    Prop :=
  ∃ path, path <+: dirs ∧
    ((∃ entry, node.denote H look path = some (.leaf entry)) ∨
      create = false ∧ node.denote H look path = none)

theorem value_materialize {result : Except String Children}
    (ran : value look (materialize H node) = .ok result) :
    (∃ children, result = .ok children ∧ node.children? H look = some children) ∨
      (∃ e entry, result = .error e ∧ node = .ref entry ∧ entry.kind ≠ .dir) := by
  cases node with
  | dir children =>
    obtain rfl : ok children = result := by simpa [materialize] using ran
    exact .inl ⟨children, rfl, rfl⟩
  | ref entry =>
    rw [materialize] at ran
    split at ran
    · next leaf =>
        obtain rfl := ok.inj ran
        exact .inr ⟨_, entry, rfl, rfl, leaf⟩
    · next isDir =>
        left
        simp only [loadChildren, value_bind] at ran
        cases fetched : value look (fetchTree H entry.id) with
        | error e => rw [fetched] at ran; cases ran
        | ok entries =>
          rw [fetched] at ran
          obtain rfl := ok.inj ran
          refine ⟨_, rfl, ?_⟩
          rw [children?, if_pos (not_not.mp isDir), entriesOf, fetched]
          rfl

section

variable (opened : node.children? H look = some children)
include opened

/-- Materializing a node does not change what it stands for. -/
theorem denote_insert {child child' : Node} {seg : String} (present : children.lookup seg = some child)
    (same : child'.denote H look = child.denote H look) :
    (dir (children.insert seg child')).denote H look = node.denote H look := by
  funext path
  cases path with
  | nil => rw [denote_nil, denote_nil, item_of_children opened, item_dir]
  | cons name path =>
    rw [denote_cons, denote_cons, children?_dir, opened, bind_some, bind_some, lookup_insert]
    split
    · next hit =>
        subst hit
        rw [present]
        exact congrFun same path
    · rfl

theorem denote_dir : (dir children).denote H look = node.denote H look := by
  funext path
  cases path with
  | nil => rw [denote_nil, denote_nil, item_of_children opened, item_dir]
  | cons name path => rw [denote_cons, denote_cons, children?_dir, opened]

theorem denote_under {child : Node} {seg : String} (present : children.lookup seg = some child)
    (path : List String) : node.denote H look (seg :: path) = child.denote H look path := by
  rw [denote_cons, opened, bind_some, present, bind_some]

end

/-- An empty directory shows no leaf. -/
theorem not_stopped_empty (dirs : List String) : ¬Stopped H look true dirs (.dir .nil) := by
  rintro ⟨path, -, ⟨entry, leaf⟩ | ⟨create, -⟩⟩
  · cases path with
    | nil => simp at leaf
    | cons name path => simp [Node.denote_cons, Children.lookup] at leaf
  · cases create

/-- **What a navigation does.** It arrives and applies its action there, or it is stopped and shows what
it showed before. -/
theorem value_navigate {α : Type} {create : Bool} {f : Children → Except String α × Children}
    {dirs : List String} {node' : Node} {result : Except String α}
    (ran : value look (navigate H create f dirs node) = .ok (result, node')) :
    (∃ before, Edited H look create before (f before).2 dirs node node' ∧ result = (f before).1) ∨
      (Stopped H look create dirs node ∧ (∃ e, result = .error e) ∧
        node'.denote H look = node.denote H look) := by
  induction dirs generalizing node node' with
  | nil =>
    simp only [navigate, value_bind, bind_ok_iff] at ran
    obtain ⟨found, materialized, rest⟩ := ran
    obtain ⟨children, rfl, opened⟩ | ⟨e, entry, rfl, rfl, leaf⟩ := value_materialize materialized
    · obtain ⟨rfl, rfl⟩ : (f children).1 = result ∧ dir (f children).2 = node' := by
        simpa using rest
      exact .inl ⟨children, .here opened, rfl⟩
    · obtain ⟨rfl, rfl⟩ : error e = result ∧ ref entry = node' := by simpa using rest
      exact .inr ⟨⟨[], nil_prefix, .inl ⟨entry, by simp [item, leaf]⟩⟩, ⟨e, rfl⟩, rfl⟩
  | cons seg dirs ih =>
    simp only [navigate, value_bind, bind_ok_iff] at ran
    obtain ⟨found, materialized, rest⟩ := ran
    obtain ⟨children, rfl, opened⟩ | ⟨e, entry, rfl, rfl, leaf⟩ := value_materialize materialized
    · cases present : children.lookup seg with
      | some child =>
        simp only [present, value_bind, bind_ok_iff, Prod.exists] at rest
        obtain ⟨_, child', below, rfl, rfl⟩ := rest
        obtain ⟨before, edited, same⟩ | ⟨⟨path, above, stop⟩, failed, same⟩ := ih below
        · exact .inl ⟨before, .through opened present edited, same⟩
        · refine .inr ⟨⟨seg :: path, cons_prefix_cons.mpr ⟨rfl, above⟩, ?_⟩, failed,
            denote_insert opened present same⟩
          rwa [denote_under opened present]
      | none =>
        simp only [present, value_ite, value_bind] at rest
        split at rest
        · next creates =>
            simp only [bind_ok_iff, Prod.exists] at rest
            obtain ⟨_, child', below, rfl, rfl⟩ := rest
            obtain ⟨before, edited, same⟩ | ⟨stopped, -⟩ := ih below
            · exact .inl ⟨before, .fresh creates opened present edited, same⟩
            · rw [creates] at stopped
              exact absurd stopped (not_stopped_empty dirs)
        · next keeps =>
            obtain ⟨rfl, rfl⟩ : error _ = result ∧ dir children = node' := by
              simpa using rest
            refine .inr ⟨⟨[seg], cons_prefix_cons.mpr ⟨rfl, nil_prefix⟩, .inr ⟨?_, ?_⟩⟩,
              ⟨_, rfl⟩, denote_dir opened⟩
            · simpa using keeps
            · simp [denote_cons, opened, present]
    · obtain ⟨rfl, rfl⟩ : error e = result ∧ ref entry = node' := by simpa using rest
      exact .inr ⟨⟨[], nil_prefix, .inl ⟨entry, by simp [item, leaf]⟩⟩, ⟨e, rfl⟩, rfl⟩

/-! ## What stands where afterwards -/

namespace Edited

variable {create : Bool} {before after : Children} {dirs : List String} {node node' : Node}
  {path : List String}

section

variable (edited : Edited H look create before after dirs node node')
include edited

/-- Below the directory it arrived at, the new children stand. -/
theorem find_under (rest : List String) :
    node'.find H look (dirs ++ rest) = (dir after).find H look rest := by
  induction edited with
  | here => rfl
  | through opened present below ih | fresh creates opened absent below ih =>
    rw [cons_append, find_dir, lookup_insert, if_pos rfl, bind_some, ih]

/-- On the way down, everything is a directory. -/
theorem find_above (above : path <+: dirs) :
    ∃ children, node'.find H look path = some (.dir children) := by
  induction edited generalizing path with
  | here =>
    obtain rfl := prefix_nil.mp above
    exact ⟨after, rfl⟩
  | through opened present below ih | fresh creates opened absent below ih =>
    cases path with
    | nil => exact ⟨_, rfl⟩
    | cons name path =>
      obtain ⟨rfl, lower⟩ := cons_prefix_cons.mp above
      obtain ⟨children, found⟩ := ih lower
      exact ⟨children, by rw [find_dir, lookup_insert, if_pos rfl, bind_some, found]⟩

/-- Beside the way down, nothing changes. -/
theorem find_apart (notUnder : ¬dirs <+: path) (notAbove : ¬path <+: dirs) :
    node'.find H look path = node.find H look path := by
  induction edited generalizing path with
  | here => exact absurd nil_prefix notUnder
  | @through node child child' children seg dirs opened present below ih =>
    cases path with
    | nil => exact absurd nil_prefix notAbove
    | cons name path =>
      rw [find_dir, lookup_insert, find_cons, opened, bind_some]
      split
      · next hit =>
          subst hit
          rw [present]
          exact ih (fun under => notUnder (cons_prefix_cons.mpr ⟨rfl, under⟩))
            fun above => notAbove (cons_prefix_cons.mpr ⟨rfl, above⟩)
      · rfl
  | @fresh node child' children seg dirs creates opened absent below ih =>
    cases path with
    | nil => exact absurd nil_prefix notAbove
    | cons name path =>
      rw [find_dir, lookup_insert, find_cons, opened, bind_some]
      split
      · next hit =>
          subst hit
          -- nothing stood below the missing directory, and nothing but the way down does now
          have empty : (dir nil).find H look path = none := by
            cases path with
            | nil => exact absurd (cons_prefix_cons.mpr ⟨rfl, nil_prefix⟩) notAbove
            | cons key path => rfl
          rw [absent, bind_none, ← empty]
          exact ih (fun under => notUnder (cons_prefix_cons.mpr ⟨rfl, under⟩))
            fun above => notAbove (cons_prefix_cons.mpr ⟨rfl, above⟩)
      · rfl

/-- What stood below the directory it arrived at. -/
theorem find_before (name : String) (rest : List String) :
    node.find H look (dirs ++ name :: rest) = (before.lookup name).bind (find H look rest) := by
  induction edited with
  | here opened => rw [nil_append, find_cons, opened, bind_some]
  | through opened present below ih =>
    rw [cons_append, find_cons, opened, bind_some, present, bind_some, ih]
  | @fresh node child' children seg dirs creates opened absent below ih =>
    rw [cons_append, find_cons, opened, bind_some, absent, ← ih]
    cases dirs <;> rfl

/-- On the way down stood directories, or nothing where one was created. -/
theorem denote_above (above : path <+: dirs) :
    node.denote H look path = some .dir ∨ create = true ∧ node.denote H look path = none := by
  induction edited generalizing path with
  | here opened =>
    obtain rfl := prefix_nil.mp above
    exact .inl (congrArg some (item_of_children opened))
  | through opened present below ih =>
    cases path with
    | nil => exact .inl (congrArg some (item_of_children opened))
    | cons name path =>
      obtain ⟨rfl, lower⟩ := cons_prefix_cons.mp above
      rw [denote_under opened present]
      exact ih lower
  | fresh creates opened absent below ih =>
    cases path with
    | nil => exact .inl (congrArg some (item_of_children opened))
    | cons name path =>
      obtain ⟨rfl, -⟩ := cons_prefix_cons.mp above
      exact .inr ⟨creates, by rw [denote_cons, opened, bind_some, absent, bind_none]⟩

/-- A navigation that changes one name keeps everything beside that name and the way down. -/
theorem find_kept {name : String} (same : ∀ key, name ≠ key → after.lookup key = before.lookup key)
    (notUnder : ¬dirs ++ [name] <+: path) (notAbove : ¬path <+: dirs) :
    node'.find H look path = node.find H look path := by
  by_cases under : dirs <+: path
  · obtain ⟨rest, rfl⟩ := under
    cases rest with
    | nil => exact absurd (by rw [append_nil]) notAbove
    | cons key rest =>
      have apart : name ≠ key := by
        rintro rfl
        exact notUnder ⟨rest, by simp⟩
      rw [edited.find_under, edited.find_before, find_dir, same key apart]
  · exact edited.find_apart under notAbove

end

end Edited

end Ducktape.Duckfs
