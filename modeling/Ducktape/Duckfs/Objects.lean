import Ducktape.Duckfs.Codec
import Ducktape.Duckfs.Wire

/-! # The immutable object model

File and tree records of the content-addressed store. An id is the digest of a kind tag
byte followed by the object's canonical body. Every decode is strict: counts are capped before they are
trusted, tree names and meta keys strictly ascend, and the whole input must be consumed.

For each record, `Fits` says which values its decoder accepts; `decode_encode` reads such a value back and
`fits_of_decode` says that nothing else is read. -/

namespace Ducktape.Duckfs

open Lib Lib.Borsh Std Cursor.Yields Cursor

/-! ## Ids -/

/-- The domain-separating tag of an id preimage. -/
inductive Kind
  | chunk
  | file
  | tree
  | snapshot
  deriving DecidableEq, Inhabited, Repr

/-- The tag byte. -/
def Kind.tag : Kind → Nat
  | .chunk => 0
  | .file => 1
  | .tree => 2
  | .snapshot => 3

/-- Derive an object id: the digest of the kind tag byte followed by the body. -/
def objectId (H : Hash) (kind : Kind) (body : Bytes) : ObjectId :=
  H.sha256 (le 1 kind.tag ++ body)

/-- An injective digest separates objects by kind and body. -/
theorem objectId_inj {H : Hash} (injective : Function.Injective H.sha256) {k l : Kind} {b c : Bytes}
    (same : objectId H k b = objectId H l c) : k = l ∧ b = c := by
  obtain ⟨tag, body⟩ := List.append_inj (injective same) (by simp)
  refine ⟨?_, body⟩
  cases k <;> cases l <;> first | rfl | exact absurd tag (by decide)

/-! ## Records -/

/-- A file: its size, the ordered chunk ids that reconstruct it, and small string metadata. -/
structure FileObj where
  size : Nat
  chunks : List ObjectId
  metadata : ExtTreeMap String String
  deriving DecidableEq

/-- What a tree entry points at. -/
inductive EntryKind
  | file
  | dir
  | symlink
  deriving DecidableEq, Inhabited, Repr

/-- The tag byte. -/
def EntryKind.tag : EntryKind → Nat
  | .file => 0
  | .dir => 1
  | .symlink => 2

/-- The inverse of `EntryKind.tag`. -/
def EntryKind.fromU8 : Nat → Option EntryKind
  | 0 => some .file
  | 1 => some .dir
  | 2 => some .symlink
  | _ => none

/-- One entry of a directory tree. -/
structure TreeEntry where
  kind : EntryKind
  id : ObjectId
  exec : Bool
  size : Nat
  deriving DecidableEq, Inhabited

/-- A directory: a name-keyed set of entries. -/
structure TreeObj where
  entries : ExtTreeMap String TreeEntry
  deriving DecidableEq

/-! ## Encoding -/

variable (H : Hash)

/-- One metadata pair. -/
def pushPair (pair : String × String) : Bytes := pushString pair.1 ++ pushString pair.2

def FileObj.encode (file : FileObj) : Bytes :=
  le 8 file.size ++ (le 4 file.chunks.length ++ (file.chunks.flatMap H.push ++
    (le 2 file.metadata.size ++ file.metadata.toList.flatMap pushPair)))

/-- One directory entry under its name. -/
def pushEntry (pair : String × TreeEntry) : Bytes :=
  pushString pair.1 ++ (le 1 pair.2.kind.tag ++ (H.push pair.2.id ++
    (pushBool pair.2.exec ++ le 8 pair.2.size)))

def TreeObj.encode (tree : TreeObj) : Bytes :=
  le 4 tree.entries.size ++ tree.entries.toList.flatMap (pushEntry H)

/-! ## Decoding -/

/-- The frame label of every object. -/
def objectBody : String := "object body"

/-- One metadata pair within its caps. -/
def readPair : Cursor (String × String) := do
  let key ← string objectBody
  let value ← string objectBody
  Cursor.refuse (maxMetaKeyBytes < key.utf8ByteSize) "files: file meta key over cap"
  Cursor.refuse (maxMetaValueBytes < value.utf8ByteSize) "files: file meta value over cap"
  pure (key, value)

/-- The fields of a file. -/
def FileObj.fields : Cursor FileObj := do
  let size ← u64 objectBody
  let chunkCount ← u32 objectBody
  Cursor.refuse (maxChunksPerFile < chunkCount) "files: file chunk count over cap"
  let chunks ← Cursor.many (bytes32 H objectBody) chunkCount
  let metaCount ← u16 objectBody
  Cursor.refuse (maxMetaEntries < metaCount) "files: file meta count over cap"
  let metadata ← Cursor.ascending readPair "files: file meta keys not strictly ascending" metaCount ∅
  pure { size, chunks, metadata }

def FileObj.decode (body : Bytes) : Except String FileObj :=
  (do let file ← FileObj.fields H; finish objectBody; pure file : Cursor FileObj).run body

/-- One directory entry under its name. -/
def readEntry : Cursor (String × TreeEntry) := do
  let name ← string objectBody
  Cursor.refuse (maxNameBytes < name.utf8ByteSize) "files: tree entry name over cap"
  let tag ← u8 objectBody
  let kind ← Cursor.ofOption (EntryKind.fromU8 tag) "files: tree entry has an unknown kind"
  let id ← bytes32 H objectBody
  let exec ← boolean objectBody
  let size ← u64 objectBody
  pure (name, { kind, id, exec, size })

/-- The entries of a directory. -/
def TreeObj.fields : Cursor TreeObj := do
  let entryCount ← u32 objectBody
  Cursor.refuse (maxDirEntries < entryCount) "files: tree entry count over cap"
  let entries ← Cursor.ascending (readEntry H) "files: tree names not strictly ascending" entryCount ∅
  pure ⟨entries⟩

def TreeObj.decode (body : Bytes) : Except String TreeObj :=
  (do let tree ← TreeObj.fields H; finish objectBody; pure tree : Cursor TreeObj).run body

/-! ## The values a decoder accepts -/

/-- Within a decoder's caps and a machine word. -/
def FileObj.Fits (file : FileObj) : Prop :=
  file.size < 2 ^ 64 ∧ file.chunks.length ≤ maxChunksPerFile ∧ file.metadata.size ≤ maxMetaEntries ∧
    ∀ key value : String, file.metadata[key]? = some value →
      key.utf8ByteSize ≤ maxMetaKeyBytes ∧ value.utf8ByteSize ≤ maxMetaValueBytes

/-- A name the decoder accepts, over a size that fits a word. -/
def EntryFits (name : String) (entry : TreeEntry) : Prop :=
  name.utf8ByteSize ≤ maxNameBytes ∧ entry.size < 2 ^ 64

/-- Within the decoder's caps and a machine word. -/
def TreeObj.Fits (tree : TreeObj) : Prop :=
  tree.entries.size ≤ maxDirEntries ∧ ∀ (name : String) (entry : TreeEntry), tree.entries[name]? = some entry → EntryFits name entry

/-! ## Reading back -/

variable {H}

theorem reads_pair {pair : String × String} (key : pair.1.utf8ByteSize ≤ maxMetaKeyBytes)
    (value : pair.2.utf8ByteSize ≤ maxMetaValueBytes) : readPair.Reads (pushPair pair) pair := by
  have keyWord : pair.1.utf8ByteSize < 2 ^ 64 := by rw [maxMetaKeyBytes] at key; omega
  have valueWord : pair.2.utf8ByteSize < 2 ^ 64 := by rw [maxMetaValueBytes] at value; omega
  refine (reads_string keyWord).bind ((reads_string valueWord).last ?_)
  exact .guard (Nat.not_lt.mpr key) (.guard (Nat.not_lt.mpr value) (.pure pair))

theorem FileObj.reads_fields (frames : H.Frames) {file : FileObj} (fits : file.Fits) :
    (FileObj.fields H).Reads (file.encode H) file := by
  obtain ⟨size, chunks, metadata, pairs⟩ := fits
  have chunkCount : file.chunks.length < 2 ^ 32 := by rw [maxChunksPerFile] at chunks; omega
  have metaCount : file.metadata.size < 2 ^ 16 := by rw [maxMetaEntries] at metadata; omega
  refine (reads_u64 size).bind ((reads_u32 chunkCount).bind (.guard (Nat.not_lt.mpr chunks) ?_))
  refine (reads_many fun id _ => reads_bytes32 (frames id)).bind ((reads_u16 metaCount).bind
    (.guard (Nat.not_lt.mpr metadata) (Cursor.Reads.last ?_ (.pure file))))
  refine reads_ascending_toList fun pair mem => ?_
  obtain ⟨key, value⟩ := pairs _ _ (ExtTreeMap.mem_toList_iff_getElem?_eq_some.mp mem)
  exact reads_pair key value

/-- **A file within its caps is read back.** -/
theorem FileObj.decode_encode (frames : H.Frames) {file : FileObj} (fits : file.Fits) :
    FileObj.decode H (file.encode H) = .ok file :=
  (FileObj.reads_fields frames fits).run_finish

theorem EntryKind.fromU8_tag (kind : EntryKind) : EntryKind.fromU8 kind.tag = some kind := by
  cases kind <;> rfl

theorem EntryKind.tag_lt (kind : EntryKind) : kind.tag < 256 := by
  cases kind <;> decide

theorem reads_entry (frames : H.Frames) {pair : String × TreeEntry} (fits : EntryFits pair.1 pair.2) :
    (readEntry H).Reads (pushEntry H pair) pair := by
  obtain ⟨name, size⟩ := fits
  have word : pair.1.utf8ByteSize < 2 ^ 64 := by rw [maxNameBytes] at name; omega
  refine (reads_string word).bind (.guard (Nat.not_lt.mpr name) ((reads_u8 pair.2.kind.tag_lt).bind ?_))
  refine .ofOption pair.2.kind.fromU8_tag ((reads_bytes32 (frames pair.2.id)).bind ?_)
  exact (reads_boolean pair.2.exec).bind ((reads_u64 size).last (.pure pair))

theorem TreeObj.reads_fields (frames : H.Frames) {tree : TreeObj} (fits : tree.Fits) :
    (TreeObj.fields H).Reads (tree.encode H) tree := by
  obtain ⟨count, entries⟩ := fits
  have word : tree.entries.size < 2 ^ 32 := by rw [maxDirEntries] at count; omega
  refine (reads_u32 word).bind (.guard (Nat.not_lt.mpr count) (Cursor.Reads.last ?_ (.pure tree)))
  exact reads_ascending_toList fun pair mem =>
    reads_entry frames (entries _ _ (ExtTreeMap.mem_toList_iff_getElem?_eq_some.mp mem))

/-- **A directory within its caps is read back.** -/
theorem TreeObj.decode_encode (frames : H.Frames) {tree : TreeObj} (fits : tree.Fits) :
    TreeObj.decode H (tree.encode H) = .ok tree :=
  (TreeObj.reads_fields frames fits).run_finish

/-! ## Nothing else is read -/

theorem yields_entry : (readEntry H).Yields fun pair => EntryFits pair.1 pair.2 := by
  refine yields_string.bind fun name _ => (yields_refuse _ _).bind fun _ short => ?_
  refine (trivial _).bind fun tag _ => (trivial _).bind fun kind _ => ?_
  refine (trivial _).bind fun id _ => (trivial _).bind fun exec _ => ?_
  exact yields_u64.bind fun size word => .pure ⟨Nat.not_lt.mp short, word⟩

/-- A decoded directory is within the caps. -/
theorem TreeObj.fits_of_decode {body : Bytes} {tree : TreeObj} (read : TreeObj.decode H body = .ok tree) :
    tree.Fits := by
  refine run_finish ?_ read
  refine (trivial _).bind fun count _ => (yields_refuse _ _).bind fun _ small => ?_
  refine (yields_ascending yields_entry count (by simp)).bind fun entries fits => .pure ⟨?_, fits.1⟩
  calc entries.size ≤ (∅ : ExtTreeMap String TreeEntry).size + count := fits.2
    _ = count := by rw [ExtTreeMap.size_empty, Nat.zero_add]
    _ ≤ maxDirEntries := Nat.not_lt.mp small

end Ducktape.Duckfs
