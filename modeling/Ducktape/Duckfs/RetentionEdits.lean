import Std.Data.String.ToNat
import Mathlib.Data.String.Basic
import Ducktape.Duckfs.Retention
import Ducktape.Duckfs.TreeBuild

/-! # Editing the retention catalog

What the reads and edits of the catalog do to the namespace it shows.

* `decodeRecord_encode`: a record is read back.
* `value_walkGet`: what a read of the overlay gives.
* `value_prune`, `value_write`: removing the spine left empty; writing or removing a record. -/

namespace Ducktape.Duckfs

open Lib Attempt Std Option List Node

/-- What the catalog needs of the digest's spellings: no id's shards begin another's, and shards and hex
spellings are short. -/
structure Hash.Shards (H : Hash) : Prop where
  apart : ∀ a b, H.digits a <+: H.digits b → a = b
  short : ∀ a, ShortNames (H.digits a)
  hex : ∀ text id, H.fromHex32 text = some id → text.utf8ByteSize ≤ maxMetaValueBytes

namespace Retention

variable {H : Hash} {look : (q : Read) → q.Answer} {snapshot key : String}

/-! ## Records -/

theorem snapshotId_ok {text : String} {id : ObjectId} :
    snapshotId H text = .ok id ↔ H.fromHex32 text = some id ∧ H.toHex id = text := by
  unfold snapshotId
  cases H.fromHex32 text with
  | none => simp
  | some found =>
    by_cases canonical : H.toHex found = text
    · simp only [canonical, ne_eq, not_true_eq_false, if_false, Except.ok.injEq, some.injEq]
      exact ⟨fun same => ⟨same, same ▸ canonical⟩, And.left⟩
    · simp only [ne_eq, canonical, not_false_eq_true, if_true, reduceCtorEq, some.injEq, false_iff]
      rintro ⟨rfl, same⟩
      exact canonical same

theorem positiveNumber_toString {n : Nat} (positive : n ≠ 0) (word : n < 2 ^ 64) :
    positiveNumber (toString n) = .ok n := by
  have parsed : (toString n).toNat? = some n := Nat.toNat?_repr n
  rw [positiveNumber, parsed]
  exact if_pos ⟨positive, word, rfl⟩

theorem utf8ByteSize_le (text : String) : text.utf8ByteSize ≤ 4 * text.length := by
  have chars : ∀ cs : List Char, String.utf8Len cs ≤ 4 * cs.length := by
    intro cs
    induction cs with
    | nil => simp
    | cons c cs ih =>
      have := c.utf8Size_le_four
      rw [String.utf8Len_cons, length_cons]
      omega
  have := chars text.toList
  rwa [← String.utf8ByteSize_ofList, String.ofList_toList, String.length_toList] at this

theorem decimal_small {n : Nat} (word : n < 2 ^ 64) : (toString n).utf8ByteSize ≤ maxMetaValueBytes := by
  have digits : (toString n).length ≤ 20 := (Nat.length_repr_le_iff (by omega)).mpr (by omega)
  have := utf8ByteSize_le (toString n)
  rw [maxMetaValueBytes]
  omega

/-- A record the catalog reads back. -/
def Record.Fits (H : Hash) : Record → Prop
  | .reference held => (∃ id, snapshotId H held.snapshot = .ok id) ∧ held.revision ≠ 0 ∧ held.revision < 2 ^ 64
  | .membership id n => snapshotId H (H.toHex id) = .ok id ∧ n ≠ 0 ∧ n < 2 ^ 64

theorem fits_pairs (key : String) {number : Nat} (small : key.utf8ByteSize ≤ maxMetaKeyBytes)
    (short : snapshot.utf8ByteSize ≤ maxMetaValueBytes) (word : number < 2 ^ 64) :
    (pairs snapshot key number).Fits := by
  refine ⟨Nat.two_pow_pos 64, Nat.zero_le _, ?_, fun other value here => ?_⟩
  · have one := ExtTreeMap.size_insert_le (t := (∅ : ExtTreeMap String String)) (k := "snapshot")
      (v := snapshot)
    have two := ExtTreeMap.size_insert_le (t := (∅ : ExtTreeMap String String).insert "snapshot" snapshot)
      (k := key) (v := toString number)
    rw [ExtTreeMap.size_empty] at one
    rw [maxMetaEntries]
    exact two.trans (by omega)
  · simp only [pairs, ExtTreeMap.getElem?_insert, Std.LawfulEqOrd.compare_eq_iff_eq] at here
    split at here
    · next same => exact ⟨same ▸ small, Option.some.inj here ▸ decimal_small word⟩
    · split at here
      · next same => exact ⟨same ▸ by decide, Option.some.inj here ▸ short⟩
      · simp at here

theorem pairs_snapshot (apart : key ≠ "snapshot") (number : Nat) :
    (pairs snapshot key number).metadata["snapshot"]? = some snapshot := by
  rw [pairs, ExtTreeMap.getElem?_insert, if_neg (by simpa using apart), ExtTreeMap.getElem?_insert_self]

theorem pairs_key (snapshot key : String) (number : Nat) :
    (pairs snapshot key number).metadata[key]? = some (toString number) := by
  simp [pairs]

/-- **A record is read back.** -/
theorem decodeRecord_encode (frames : H.Frames) (shards : H.Shards) {record : Record} (fits : record.Fits H) :
    decodeRecord H ((record.file H).encode H) = .ok record := by
  cases record with
  | reference held =>
    obtain ⟨⟨id, named⟩, positive, word⟩ := fits
    have file := FileObj.decode_encode frames (fits_pairs "revision" (by decide)
      (shards.hex _ _ (snapshotId_ok.mp named).1) word)
    simp only [decodeRecord, Record.file, file, bind, Except.bind, named, pairs_key,
      pairs_snapshot (show "revision" ≠ "snapshot" by decide), positiveNumber_toString positive word]
    rfl
  | membership id n =>
    obtain ⟨named, positive, word⟩ := fits
    have file := FileObj.decode_encode frames (fits_pairs "count" (by decide)
      (shards.hex _ _ (snapshotId_ok.mp named).1) word)
    simp only [decodeRecord, Record.file, file, bind, Except.bind, named, pairs_key,
      pairs_snapshot (show "count" ≠ "snapshot" by decide), positiveNumber_toString positive word]
    rfl

/-! ## Reading the overlay -/

/-- The child a sound node shows under a name. -/
theorem value_child {node : Node} (sound : node.Sound H look) (name : String) :
    value look (node.child H name) = .ok ((node.children? H look).bind (·.lookup name)) := by
  cases node with
  | dir children => rfl
  | ref entry =>
    by_cases isDir : entry.kind = .dir
    · obtain ⟨entries, found, -⟩ := (sound.2 isDir).entries
      have fetched := entriesOf_eq_some.mp found
      simp [Node.child, Node.children?, isDir, found, loadChildren, fetched, Except.bind]
    · simp [Node.child, Node.children?, isDir]

/-- **What a read of the overlay gives**: the entry that the node at the path builds to. -/
theorem value_walkGet {node : Node} (sound : node.Sound H look) {path : List String} (nonempty : path ≠ []) :
    value look (walkGet H node path) =
      match node.find H look path with
      | none => .ok none
      | some found => (found.build H).map fun built => some built.1 := by
  induction path generalizing node with
  | nil => exact absurd rfl nonempty
  | cons name path ih =>
    rw [walkGet, value_bind, value_child sound, find_cons]
    change value look (match (node.children? H look).bind (·.lookup name) with | none => _ | some child => _) = _
    cases opened : node.children? H look with
    | none => rfl
    | some children =>
      rw [bind_some, bind_some]
      cases here : children.lookup name with
      | none => rfl
      | some child =>
        rw [bind_some]
        cases path with
        | nil =>
          simp only [dirEntryReadonly, find_nil]
          cases child.build H with
          | ok | error => rfl
        | cons next path => exact ih (Children.Sound.lookup (sound.children opened) here).2 (by simp)

/-! ## Accepted edits -/

section edits

variable {node node' : Node} {path : List String} {entry : TreeEntry} {children : Children}
  {out : List (Kind × Bytes)}

/-- An accepted put. -/
theorem put_accepted (short : ShortNames path) (leaf : (ref entry).Sound H look)
    (sound : node.Sound H look)
    (ran : value look (TreeEdit.put H path entry node) = .ok (.ok (), node')) :
    node'.Sound H look ∧ node'.denote H look = (node.denote H look).place path ((ref entry).denote H look) ∧
      ∃ children, node' = .dir children := by
  obtain ⟨_, _, ran', sound', -⟩ := put_safe short leaf node sound
  rw [ran] at ran'
  cases ran'
  obtain ⟨-, -, denotes⟩ | ⟨⟨_, failed⟩, -⟩ := put_refines path entry node _ _ ran
  swap
  · cases failed
  refine ⟨sound', denotes, ?_⟩
  obtain rfl | ⟨dirs, name, rfl⟩ := eq_nil_or_concat' path
  · simp [TreeEdit.put] at ran
  simp only [TreeEdit.put, getLast?_concat] at ran
  obtain ⟨before, edited, -⟩ | ⟨-, ⟨_, failed⟩, -⟩ := value_navigate ran
  · obtain ⟨children, here⟩ := edited.find_above nil_prefix
    exact ⟨children, some.inj here⟩
  · cases failed

/-- An accepted removal: the directories above are in memory. -/
theorem rm_accepted (sound : node.Sound H look)
    (ran : value look (TreeEdit.rm H path node) = .ok (.ok (), node')) :
    node'.Sound H look ∧ path ≠ [] ∧ node.denote H look path ≠ none ∧
      node'.denote H look = (node.denote H look).remove path ∧
      ∀ q, q <+: path.dropLast → ∃ children, node'.find H look q = some (.dir children) := by
  obtain ⟨_, _, ran', sound', -⟩ := rm_safe path node sound
  rw [ran] at ran'
  cases ran'
  obtain ⟨-, ⟨nonempty, present⟩, denotes⟩ | ⟨⟨_, failed⟩, -⟩ := rm_refines path node _ _ ran
  swap
  · cases failed
  refine ⟨sound', nonempty, present, denotes, fun q above => ?_⟩
  obtain rfl | ⟨dirs, name, rfl⟩ := eq_nil_or_concat' path
  · exact absurd rfl nonempty
  simp only [TreeEdit.rm, getLast?_concat] at ran
  obtain ⟨before, edited, -⟩ | ⟨-, ⟨_, failed⟩, -⟩ := value_navigate ran
  · exact edited.find_above above
  · cases failed

theorem value_applied {edit : Edit Unit} : value look (applied edit node) = .ok node' ↔
    value look (edit node) = .ok (.ok (), node') := by
  rw [applied, value_bind]
  cases value look (edit node) with
  | error e => simp [Except.bind]
  | ok ran =>
    obtain ⟨_ | _, after⟩ := ran
    · simp [Except.bind]
    · simp [Except.bind]

/-- A directory in memory builds to its number of names. -/
theorem build_dir_entry (builds : (dir children).build H = .ok (entry, out)) :
    entry.kind = .dir ∧ (entry.size = 0 ↔ children = .nil) := by
  obtain ⟨entries, below, object, inner, finished, -⟩ := build_dir builds
  obtain ⟨-, -, rfl⟩ := finishDir_ok finished
  cases children with
  | nil =>
    obtain ⟨rfl, -⟩ := Prod.mk.inj (Except.ok.inj inner)
    simp
  | cons name child rest =>
    obtain ⟨first, -, tail, -, -, -, rfl, -⟩ := Children.build_cons inner
    simp [← ExtTreeMap.eq_empty_iff_size_eq_zero]

/-- Only an empty directory shows no child. -/
theorem nil_of_bare (bare : ∀ name, children.lookup name = none) : children = .nil := by
  cases children with
  | nil => rfl
  | cons name child rest =>
    have here := bare name
    simp [Children.lookup] at here

theorem denote_child_of_find (here : node.find H look path = some (.dir children)) (name : String) :
    node.denote H look (path ++ [name]) = (children.lookup name).map item := by
  rw [denote, find_append, here, bind_some, find_dir]
  cases children.lookup name <;> rfl

variable {leaves : List String → Option TreeEntry}

open Namespace

/-- **Pruning.** From the kept directories down to `depth`, those left empty go. -/
theorem value_prune {depth : Nat} (deep : depth ≤ path.length) (above : ∀ q, q <+: path.take depth → leaves q = none)
    (sound : node.Sound H look) (shows : node.denote H look = scaffold leaves (path.take depth))
    (spine : ∀ q, q <+: path.take depth → ∃ children, node.find H look q = some (.dir children))
    (ran : value look (prune H path depth node) = .ok (.ok (), node')) :
    node'.Sound H look ∧ node'.denote H look = spread leaves ∧ ∃ children, node' = .dir children := by
  have rooted : ∃ children, node = .dir children := by
    obtain ⟨children, here⟩ := spine [] nil_prefix
    exact ⟨children, some.inj here⟩
  induction depth generalizing node with
  | zero =>
    cases ran
    exact ⟨sound, shows.trans (scaffold_stop above (.inl rfl)), rooted⟩
  | succ depth ih =>
    have nonempty : path.take (depth + 1) ≠ [] := by
      rw [Ne, take_eq_nil_iff]
      rintro (_ | rfl)
      · omega
      · simp at deep
    obtain ⟨children, here⟩ := spine _ prefix_rfl
    have child := denote_child_of_find here
    rw [prune, value_edit_bind, lookAt, value_bind, TreeEdit.get, value_walkGet sound nonempty, here] at ran
    simp only at ran
    cases builds : (dir children).build H with
    | error e =>
      rw [builds] at ran
      cases ran
    | ok built =>
      obtain ⟨entry, out⟩ := built
      obtain ⟨isDir, bare⟩ := build_dir_entry builds
      rw [builds] at ran
      change value look ((if _ then _ else _ : Edit Unit) node) = _ at ran
      by_cases empty : entry.kind = .dir ∧ entry.size = 0
      · rw [if_pos empty, value_edit_bind] at ran
        obtain ⟨⟨removed, middle⟩, rms, rest⟩ := bind_ok_iff.mp ran
        cases removed with
        | error e => cases rest
        | ok _ =>
          obtain ⟨sound', -, -, shows', spine'⟩ := rm_accepted sound rms
          obtain rfl := bare.mp empty.2
          have none : ∀ rest, leaves (path.take (depth + 1) ++ rest) = .none := by
            by_contra some
            push Not at some
            obtain ⟨name, shown⟩ := (scaffold_child (above _ prefix_rfl)).mpr some
            rw [← shows, child] at shown
            exact shown rfl
          have shorter : (path.take (depth + 1)).dropLast = path.take depth := by
            rw [dropLast_eq_take, length_take, take_take]
            congr 1
            omega
          rw [shows, scaffold_remove nonempty none, shorter] at shows'
          rw [shorter] at spine'
          have upTo : path.take depth <+: path.take (depth + 1) := take_prefix_take_left (by omega)
          obtain ⟨top, root⟩ := spine' [] nil_prefix
          exact ih (by omega) (fun q onWay => above q (onWay.trans upTo)) sound' shows' spine' rest
            ⟨top, some.inj root⟩
      · rw [if_neg empty] at ran
        cases ran
        refine ⟨sound, shows.trans (scaffold_stop above (.inr ?_)), rooted⟩
        rw [← scaffold_child (above _ prefix_rfl), ← shows]
        by_contra none
        push Not at none
        refine empty ⟨isDir, bare.mpr (nil_of_bare fun name => ?_)⟩
        have shown := none name
        rw [child] at shown
        simpa using shown

/-- A file shows itself and nothing below. -/
theorem denote_file (file : entry.kind = .file) : (ref entry).denote H look = lone entry := by
  funext q
  cases q with
  | nil => simp [item, file, lone]
  | cons name q => simp [denote, find_cons, children?, file, lone]

/-- **Writing or removing one record.** -/
theorem value_write {record : Option Record} (short : ShortNames path) (nonempty : path ≠ [])
    (clear : Clear leaves path) (sound : node.Sound H look) (shows : node.denote H look = spread leaves)
    (ran : value look (write H path node record) = .ok (node', out)) : node'.Sound H look ∧
      node'.denote H look = spread (Function.update leaves path (record.map (Record.entry H))) ∧
      (∃ children, node' = .dir children) ∧
      out = record.toList.map fun record => (.file, (record.file H).encode H) := by
  cases record with
  | some record =>
    rw [write, value_bind] at ran
    obtain ⟨after, puts, same⟩ := bind_ok_iff.mp ran
    cases same
    obtain ⟨sound', shows', rooted⟩ := put_accepted short ⟨Nat.two_pow_pos 64, by simp [Record.entry]⟩ sound
      (value_applied.mp puts)
    rw [denote_file rfl, shows, spread_put clear nonempty] at shows'
    exact ⟨sound', shows', rooted, rfl⟩
  | none =>
    rw [write, value_bind] at ran
    obtain ⟨after, removes, same⟩ := bind_ok_iff.mp ran
    cases same
    have ran := value_applied.mp removes
    rw [remove, value_edit_bind] at ran
    obtain ⟨⟨removed, middle⟩, rms, rest⟩ := bind_ok_iff.mp ran
    cases removed with
    | error e => cases rest
    | ok _ =>
      obtain ⟨sound', -, present, shows', spine⟩ := rm_accepted sound rms
      -- What is removed is a leaf: below the path there is none, so the path is not a directory.
      obtain ⟨value, here⟩ : ∃ value, leaves path = some value := by
        refine Option.ne_none_iff_exists'.mp fun bare => present ?_
        rw [shows]
        refine spread_none nonempty fun rest => ?_
        cases rest with
        | nil => rwa [append_nil]
        | cons name rest => exact clear.none_below _ (by simp)
      rw [shows, spread_remove clear nonempty here] at shows'
      rw [dropLast_eq_take] at shows' spine
      have above : ∀ q, q <+: path.take (path.length - 1) → Function.update leaves path none q = none := by
        intro q onWay
        rw [← dropLast_eq_take] at onWay
        have apart : q ≠ path := fun same => not_prefix_dropLast nonempty (same ▸ prefix_rfl) onWay
        rw [Function.update_of_ne apart]
        exact clear.none_above (onWay.trans (List.dropLast_prefix path)) apart
      obtain ⟨sound'', shows'', rooted⟩ := value_prune (by omega) above sound' shows' spine rest
      exact ⟨sound'', shows'', rooted, rfl⟩

end edits

end Retention

end Ducktape.Duckfs
