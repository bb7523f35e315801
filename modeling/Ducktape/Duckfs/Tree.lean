import Mathlib.Data.Finset.Card
import Ducktape.Lib.Attempt
import Ducktape.Duckfs.Objects

/-! # Copy-on-write tree editing

Path walks over tree objects and the lazy overlay the commit executor drives. A read of the object store
is a question of an `Access` program; `Store.answer` answers it from the block's pending objects and the
committed store, charging the per-op read budget before a committed read is issued.

A `Node` is an unexpanded reference or a directory some operation forced into memory. The operations of a
`TreeEdit` are `Edit` programs over the root node: a refusal keeps what the operation materialized, and a
failed read ends the program. -/

namespace Ducktape.Duckfs

open Lib Std

/-! ## The object store -/

/-- The content-addressed store. -/
abbrev Odb := ExtTreeMap ObjectId (Kind × Bytes)

/-- A block's index over its staged objects: kind and body length by id. -/
abbrev BlockIndex := ExtTreeMap ObjectId (Kind × Nat)

/-- One read of the store: an object, or its presence. -/
inductive Read
  | get (id : ObjectId)
  | has (id : ObjectId)
  deriving DecidableEq

/-- What a read answers. -/
abbrev Read.Answer : Read → Type
  | .get _ => Option (Kind × Bytes)
  | .has _ => Bool

/-- A program reading objects, which may refuse. -/
abbrev Access (α : Type) : Type := Attempt Read Read.Answer String α

/-- Fetch an object by id. -/
def Access.get (id : ObjectId) : Access (Option (Kind × Bytes)) := Attempt.query (A := Read.Answer) (Read.get id)

/-- The per-op distinct committed-store read budget. -/
structure ReadBudget where
  blockIndex : BlockIndex
  cap : Nat

/-- The distinct reads charged so far, by kind of read. -/
structure Charges where
  gets : Finset ObjectId := ∅
  stats : Finset ObjectId := ∅
  deriving DecidableEq

/-- Refuse once the distinct reads pass the cap. -/
def ReadBudget.check (budget : ReadBudget) (charges : Charges) : Except String Charges :=
  if budget.cap < charges.gets.card + charges.stats.card then
    .error s!"files: object-read budget exceeded ({budget.cap})"
  else .ok charges

/-- Charge a body read; a block-local id is never charged. -/
def ReadBudget.chargeGet (budget : ReadBudget) (id : ObjectId) (charges : Charges) :
    Except String Charges :=
  if budget.blockIndex.contains id then .ok charges
  else budget.check { charges with gets := insert id charges.gets }

/-- Charge a presence probe; a block-local id is never charged. -/
def ReadBudget.chargeStat (budget : ReadBudget) (id : ObjectId) (charges : Charges) :
    Except String Charges :=
  if budget.blockIndex.contains id then .ok charges
  else budget.check { charges with stats := insert id charges.stats }

/-- The read view of one edit: the store, the block's pending objects, and the read budget if any. -/
structure Store where
  store : Odb
  pending : List (Kind × Bytes)
  budget : Option ReadBudget

variable (H : Hash)

/-- The buffered object of an id. -/
def findPending (objects : List (Kind × Bytes)) (id : ObjectId) : Option (Kind × Bytes) :=
  objects.find? fun object => objectId H object.1 object.2 = id

namespace Store

/-- Pending first, then the store; a committed read is charged before it is issued. -/
def answer (S : Store) : (q : Read) → Charges → Except String (q.Answer × Charges)
  | .get id, charges =>
    match findPending H S.pending id with
    | some object => .ok (some object, charges)
    | none =>
      match S.budget with
      | none => .ok (S.store[id]?, charges)
      | some budget => (budget.chargeGet id charges).map fun charged => (S.store[id]?, charged)
  | .has id, charges =>
    match S.budget with
    | none => .ok (S.store.contains id, charges)
    | some budget => (budget.chargeStat id charges).map fun charged => (S.store.contains id, charged)

/-- What the reads answer, budget aside. -/
def look (S : Store) : (q : Read) → q.Answer
  | .get id => (findPending H S.pending id).or S.store[id]?
  | .has id => S.store.contains id

/-- Run a program over a view. -/
def run {α : Type} (S : Store) (program : Access α) : Except String α :=
  (Attempt.attempt (S.answer H) program {}).map Prod.fst

end Store

/-! ## Directories -/

/-- Decode the tree object at `id` into its entries. -/
def fetchTree (id : ObjectId) : Access (ExtTreeMap String TreeEntry) := do
  match ← Access.get id with
  | none => throw "files: tree object missing from store"
  | some (kind, body) =>
    if kind ≠ .tree then throw "files: expected a tree object"
    else match TreeObj.decode H body with
      | .error e => throw e
      | .ok decoded => pure decoded.entries

/-! ## The overlay -/

mutual

/-- A not-yet-loaded entry, or a directory some operation forced into memory. -/
inductive Node
  | ref (entry : TreeEntry)
  | dir (children : Children)

/-- A materialized directory's children, in name order. -/
inductive Children
  | nil
  | cons (name : String) (node : Node) (rest : Children)

end

namespace Children

/-- `BTreeMap::get`. -/
def lookup (name : String) : Children → Option Node
  | nil => none
  | cons key node rest => if key = name then some node else rest.lookup name

/-- `BTreeMap::insert`. -/
def insert (name : String) (node : Node) : Children → Children
  | nil => cons name node nil
  | cons key other rest =>
    match compare name key with
    | .lt => cons name node (cons key other rest)
    | .eq => cons name node rest
    | .gt => cons key other (rest.insert name node)

/-- `BTreeMap::remove`. -/
def erase (name : String) : Children → Children
  | nil => nil
  | cons key node rest => if key = name then rest.erase name else cons key node (rest.erase name)

/-- Every entry of a decoded directory, as an unexpanded reference. -/
def ofEntries : List (String × TreeEntry) → Children
  | [] => nil
  | (name, entry) :: rest => cons name (.ref entry) (ofEntries rest)

end Children

/-- An operation on an edit's root node. -/
abbrev Edit (α : Type) : Type := ExceptT String (StateT Node (Attempt Read Read.Answer String)) α

/-- Decode a directory into overlay nodes. -/
def loadChildren (id : ObjectId) : Access Children := do
  let entries ← fetchTree H id
  pure (.ofEntries entries.toList)

/-- The children of a node: a reference to a directory is decoded, one to a file or symlink is a descent
into a non-directory. -/
def materialize : Node → Access (Except String Children)
  | .dir children => pure (.ok children)
  | .ref entry =>
    if entry.kind ≠ .dir then
      pure (.error "files: a file or symlink is in the way of a directory path")
    else do
      let children ← loadChildren H entry.id
      pure (.ok children)

/-- Descend along `dirs`, materializing each directory on the way, and apply `f` to the last one's
children. With `create` a missing directory is created empty, without it the descent is refused. -/
def navigate {α : Type} (create : Bool) (f : Children → Except String α × Children) :
    List String → Node → Access (Except String α × Node)
  | [], node => do
      match ← materialize H node with
      | .error e => pure (.error e, node)
      | .ok children => pure ((f children).1, .dir (f children).2)
  | seg :: dirs, node => do
      match ← materialize H node with
      | .error e => pure (.error e, node)
      | .ok children =>
        match children.lookup seg with
        | some child => do
            let (result, child) ← navigate create f dirs child
            pure (result, .dir (children.insert seg child))
        | none =>
          if create then do
            let (result, child) ← navigate create f dirs (.dir .nil)
            pure (result, .dir (children.insert seg child))
          else pure (.error "files: a directory on the path does not exist", .dir children)

/-- Navigation as an edit of the root. -/
def descend {α : Type} (create : Bool) (dirs : List String) (f : Children → Except String α × Children) :
    Edit α :=
  fun root => navigate H create f dirs root

/-- Open an edit over a root tree: nothing is decoded. -/
def TreeEdit.load : Option ObjectId → Node
  | some id => .ref { kind := .dir, id, exec := false, size := 0 }
  | none => .dir .nil

namespace TreeEdit

/-- Place `entry` at `segs`, creating missing parents and replacing what is there. -/
def put (segs : List String) (entry : TreeEntry) : Edit Unit :=
  match segs.getLast? with
  | none => throw "files: cannot put the root itself"
  | some name => descend H true segs.dropLast fun parent => (.ok (), parent.insert name (.ref entry))

/-- Create an empty directory at `segs`, creating missing parents. -/
def mkdir (segs : List String) : Edit Unit :=
  match segs.getLast? with
  | none => throw "files: cannot mkdir the root itself"
  | some name => descend H true segs.dropLast fun parent =>
    if (parent.lookup name).isSome then (.error "files: mkdir target already exists", parent)
    else (.ok (), parent.insert name (.dir .nil))

/-- Remove the entry at `segs`: a file, a symlink, or a whole subtree. -/
def rm (segs : List String) : Edit Unit :=
  match segs.getLast? with
  | none => throw "files: cannot rm the root itself"
  | some name => descend H false segs.dropLast fun parent =>
    match parent.lookup name with
    | none => (.error "files: rm target does not exist", parent.erase name)
    | some _ => (.ok (), parent.erase name)

/-- The node at a name must be there. -/
def expectPresent (name : String) (parent : Children) : Except String Unit :=
  if (parent.lookup name).isSome then .ok () else .error "files: mv source does not exist"

/-- The name must be free. -/
def expectFree (name : String) (parent : Children) : Except String Unit :=
  if (parent.lookup name).isSome then .error "files: mv destination already exists" else .ok ()

/-- Lift the node out of its parent. -/
def takeChild (name : String) (parent : Children) : Except String Node × Children :=
  match parent.lookup name with
  | some node => (.ok node, parent.erase name)
  | none => (.error "checked present above", parent.erase name)

/-- Move the node at `source` to `target`, moving the node itself. The target's parent is not created. -/
def mv (source target : List String) : Edit Unit :=
  match source.getLast?, target.getLast? with
  | none, _ => throw "files: cannot mv the root itself"
  | some _, none => throw "files: cannot mv onto the root itself"
  | some sourceName, some targetName =>
    if source.length ≤ target.length ∧ target.take source.length = source then
      throw "files: cannot move a path into its own subtree"
    else do
      -- validated before anything is mutated
      descend H false source.dropLast fun parent => (expectPresent sourceName parent, parent)
      descend H false target.dropLast fun parent => (expectFree targetName parent, parent)
      let node ← descend H false source.dropLast (takeChild sourceName)
      descend H false target.dropLast fun parent => (.ok (), parent.insert targetName node)

end TreeEdit

/-! ## Building -/

/-- The tree object of built entries: its own entry and its stored form. -/
def finishDir (entries : ExtTreeMap String TreeEntry) : Except String (TreeEntry × (Kind × Bytes)) :=
  if maxDirEntries < entries.size then .error "files: directory exceeds the maximum entry count"
  else
    let body := TreeObj.encode H ⟨entries⟩
    .ok ({ kind := .dir, id := objectId H .tree body, exec := false, size := entries.size }, (.tree, body))

mutual

/-- A node's tree entry and, post-order, every tree object it encodes; a reference is re-emitted by id. -/
def Node.build : Node → Except String (TreeEntry × List (Kind × Bytes))
  | .ref entry => .ok (entry, [])
  | .dir children => do
      let (entries, out) ← children.build
      let (entry, object) ← finishDir H entries
      pure (entry, out ++ [object])

/-- The entries of a directory's children and the objects they encode. -/
def Children.build : Children → Except String (ExtTreeMap String TreeEntry × List (Kind × Bytes))
  | .nil => .ok (∅, [])
  | .cons name child rest => do
      let (entry, out) ← child.build
      let (entries, out') ← rest.build
      pure (entries.insert name entry, out ++ out')

end

/-- Finalize an edit: the new root tree, none for an empty root, and the objects to store. -/
def TreeEdit.build : Node → Except String (Option ObjectId × List (Kind × Bytes))
  | .ref entry => .ok (some entry.id, [])
  | .dir .nil => .ok (none, [])
  | .dir children => do
      let (entry, out) ← (Node.dir children).build H
      pure (some entry.id, out)

/-- The entry a materialized directory would encode to, without staging any object. -/
def dirEntryReadonly (node : Node) : Except String TreeEntry := (node.build H).map Prod.fst

/-- The child under a name, without touching the overlay. -/
def Node.child (name : String) : Node → Access (Option Node)
  | .dir children => pure (children.lookup name)
  | .ref entry =>
    if entry.kind ≠ .dir then pure none
    else do
      let children ← loadChildren H entry.id
      pure (children.lookup name)

/-- Resolve a path below a node without touching the overlay. -/
def walkGet (node : Node) : List String → Access (Option TreeEntry)
  | [] => pure none
  | head :: rest => do
      match ← node.child H head with
      | none => pure none
      | some child =>
        if rest.isEmpty then
          match dirEntryReadonly H child with
          | .error e => throw e
          | .ok entry => pure (some entry)
        else walkGet child rest

/-- The entry at `segs` as the edit currently sees it. -/
def TreeEdit.get (segs : List String) (root : Node) : Access (Option TreeEntry) := walkGet H root segs

end Ducktape.Duckfs
