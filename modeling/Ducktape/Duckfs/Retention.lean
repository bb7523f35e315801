import Ducktape.Duckfs.Tree

/-! # The retention catalog

Protected references live in an internal copy-on-write object tree of their own: one section for the references
of modules and one for how often each snapshot is named, both sharded by digest. A record is an empty file object
with a strict metadata grammar. `compareExchange` edits both sections under one root. -/

namespace Ducktape.Duckfs

open Lib

namespace Retention

/-- What stands at a leaf of the catalog. -/
inductive Record
  | reference (reference : RetentionReference)
  | membership (snapshot : ObjectId) (count : Nat)
  deriving DecidableEq

variable (H : Hash)

/-- An empty file object over a snapshot and a number. -/
def pairs (snapshot key : String) (number : Nat) : FileObj where
  size := 0
  chunks := []
  metadata := (∅ : Std.ExtTreeMap String String).insert "snapshot" snapshot |>.insert key (toString number)

/-- The file object of a record. -/
def Record.file : Record → FileObj
  | .reference held => pairs held.snapshot "revision" held.revision
  | .membership snapshot count => pairs (H.toHex snapshot) "count" count

/-- A positive `u64` in canonical decimal. -/
def positiveNumber (value : String) : Except String Nat :=
  match value.toNat? with
  | none => .error "files: invalid retention number"
  | some number =>
    if number ≠ 0 ∧ number < 2 ^ 64 ∧ toString number = value then .ok number
    else .error "files: invalid retention number"

/-- The id a canonical hex spelling names. -/
def snapshotId (snapshot : String) : Except String ObjectId :=
  match H.fromHex32 snapshot with
  | none => .error "files: invalid retention snapshot"
  | some id => if H.toHex id ≠ snapshot then .error "files: retention snapshot must be canonical hex" else .ok id

def decodeRecord (body : Bytes) : Except String Record := do
  let file ← FileObj.decode H body
  if ¬ (file.size = 0 ∧ file.chunks = [] ∧ file.metadata.size = 2) then throw "files: invalid retention record shape"
  else match file.metadata["snapshot"]? with
    | none => throw "files: retention record has no snapshot"
    | some snapshot => do
      let id ← snapshotId H snapshot
      match file.metadata["revision"]? with
      | some revision => (positiveNumber revision).map fun revision => .reference ⟨snapshot, revision⟩
      | none =>
        match file.metadata["count"]? with
        | none => throw "files: retention record has no count"
        | some count => (positiveNumber count).map fun count => .membership id count

def validateName (module key : String) : Except String Unit :=
  if (module ≠ "" ∧ module.utf8ByteSize ≤ maxWatchModuleIdBytes) ∧ (key ≠ "" ∧ key.utf8ByteSize ≤ maxPinNameBytes) then
    .ok ()
  else .error "files: invalid retention module or key"

/-- A section and the shards of an id. -/
def shards (lane : String) (id : ObjectId) : List String := lane :: H.digits id

def referencePath (module key : String) : List String :=
  shards H "references" (objectId H .chunk (pushString module ++ pushString key))

def membershipPath (id : ObjectId) : List String := shards H "snapshots" id

/-! ## Reading -/

/-- A pure check inside an access. -/
def liftExcept {α : Type} : Except String α → Access α
  | .ok a => pure a
  | .error e => throw e

def getRecord (root : Option ObjectId) (path : List String) : Access (Option Record) := do
  match ← TreeEdit.get H path (TreeEdit.load root) with
  | none => pure none
  | some entry =>
    if entry.kind ≠ .file then throw "files: retention record is not a file"
    else
      match ← Access.get entry.id with
      | none => throw "files: retention record missing"
      | some (kind, body) =>
        if kind ≠ .file then throw "files: retention record kind mismatch"
        else do
          let record ← liftExcept (decodeRecord H body)
          pure (some record)

def get (root : Option ObjectId) (module key : String) : Access (Option RetentionReference) := do
  liftExcept (validateName module key)
  match ← getRecord H root (referencePath H module key) with
  | none => pure none
  | some (.reference reference) => pure (some reference)
  | some (.membership _ _) => throw "files: invalid retention reference edge"

def count (root : Option ObjectId) (id : ObjectId) : Access Nat := do
  match ← getRecord H root (membershipPath H id) with
  | none => pure 0
  | some (.membership snapshot count) =>
    if snapshot ≠ id then throw "files: retention membership snapshot mismatch" else pure count
  | some (.reference _) => throw "files: invalid retention membership edge"

def contains (root : Option ObjectId) (id : ObjectId) : Access Bool := do
  let count ← count H root id
  pure (count ≠ 0)

/-! ## Editing -/

/-- The catalog entry of a record. -/
def Record.entry (record : Record) : TreeEntry where
  kind := .file
  id := objectId H .file ((record.file H).encode H)
  exec := false
  size := 0

def put (path : List String) (record : Record) : Edit Unit := TreeEdit.put H path (record.entry H)

/-- The entry an edit shows. -/
def lookAt (path : List String) : Edit (Option TreeEntry) := fun node => do
  let entry ← TreeEdit.get H path node
  pure (.ok entry, node)

/-- Remove the ancestors of a path that are left empty, from `depth` segments upwards. -/
def prune (path : List String) : Nat → Edit Unit
  | 0 => pure ()
  | depth + 1 => do
      match ← lookAt H (path.take (depth + 1)) with
      | none => throw "files: retention ancestor missing"
      | some entry =>
        if entry.kind = .dir ∧ entry.size = 0 then do
          TreeEdit.rm H (path.take (depth + 1))
          prune path depth
        else pure ()

/-- Remove a record and the spine it leaves empty. -/
def remove (path : List String) : Edit Unit := do
  TreeEdit.rm H path
  prune H path (path.length - 1)

/-- The result of an exchange: the new root, and the objects to stage. -/
structure Built where
  root : Option ObjectId
  objects : List (Kind × Bytes)

/-- Carry out an edit, or refuse. -/
def applied (edit : Edit Unit) (node : Node) : Access Node := do
  match ← edit node with
  | (.ok (), node) => pure node
  | (.error e, _) => throw e

/-- Write a record, or remove the one that is there; the objects it needs. -/
def write (path : List String) (node : Node) : Option Record → Access (Node × List (Kind × Bytes))
  | some record => do
      let node ← applied (put H path record) node
      pure (node, [(.file, (record.file H).encode H)])
  | none => do
      let node ← applied (remove H path) node
      pure (node, [])

/-- A membership record, unless nothing is counted. -/
def membership (id : ObjectId) (count : Nat) : Option Record := if count = 0 then none else some (.membership id count)

/-- `Option::map` of a snapshot check, transposed. -/
def snapshotOf : Option RetentionReference → Except String (Option ObjectId)
  | none => .ok none
  | some reference => (snapshotId H reference.snapshot).map some

/-- Count one reference of a snapshot less. -/
def release (root : Option ObjectId) (id : ObjectId) (node : Node) : Access (Node × List (Kind × Bytes)) := do
  let held ← count H root id
  if held = 0 then throw "files: retention membership underflow"
  else write H (membershipPath H id) node (membership id (held - 1))

/-- Count one reference of a snapshot more. -/
def retain (root : Option ObjectId) (id : ObjectId) (node : Node) : Access (Node × List (Kind × Bytes)) := do
  let held ← count H root id
  if 2 ^ 64 ≤ held + 1 then throw "files: retention membership overflow"
  else write H (membershipPath H id) node (some (.membership id (held + 1)))

/-- Move the membership counts from one snapshot to another; counts are read from the old root. -/
def recount (root : Option ObjectId) (previous next : Option ObjectId) (node : Node) :
    Access (Node × List (Kind × Bytes)) :=
  if previous = next then pure (node, [])
  else do
    let (node, dropped) ← previous.elim (pure (node, [])) fun id => release H root id node
    let (node, added) ← next.elim (pure (node, [])) fun id => retain H root id node
    pure (node, dropped ++ added)

/-- One reference of an exchange. -/
def checkReference : Option RetentionReference → Except String Unit
  | none => .ok ()
  | some reference => do
      let _ ← snapshotId H reference.snapshot
      if reference.revision = 0 then throw "files: retention revision must be nonzero"

/-- Does a replacement fail to advance the revision? -/
def revisionRegressed : Option RetentionReference → Option RetentionReference → Bool
  | some old, some new => new.revision ≤ old.revision
  | _, _ => false

/-- Replace the reference of a key that holds the expected one. -/
def compareExchange (root : Option ObjectId) (module key : String) (expected replacement : Option RetentionReference) :
    Access Built := do
  liftExcept (validateName module key)
  liftExcept (checkReference H expected)
  liftExcept (checkReference H replacement)
  let current ← get H root module key
  if current ≠ expected then throw "files: retention compare exchange mismatch"
  else if expected = replacement then pure ⟨root, []⟩
  else if revisionRegressed expected replacement then throw "files: retention revision must advance"
  else do
    let (node, records) ← write H (referencePath H module key) (TreeEdit.load root) (replacement.map .reference)
    let previous ← liftExcept (snapshotOf H expected)
    let next ← liftExcept (snapshotOf H replacement)
    let (node, counts) ← recount H root previous next node
    let (root, trees) ← liftExcept (TreeEdit.build H node)
    pure ⟨root, records ++ counts ++ trees⟩

end Retention

end Ducktape.Duckfs
