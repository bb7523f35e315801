import Mathlib.Data.Set.Card
import Ducktape.Duckfs.RetentionEdits

/-! # The retention catalog is a reference-counted map

The catalog of some live references is the namespace of their records and of the counts of the snapshots they
name (`Catalog`, `Holds`). An accepted exchange edits it into the catalog of the references it leaves
(`Holds.compareExchange`), so over every run the catalog reads as the map of the last accepted values
(`exchanges_exact`). -/

namespace Ducktape.Duckfs

open Lib Attempt Namespace Function List Retention Node Option Except TreeEdit Set

namespace Retention

variable {H : Hash} {look look' : (q : Read) → q.Answer} {id : ObjectId}
  {live : String × String → Option RetentionReference}

/-! ## Paths -/

/-- A name `validateName` lets through. -/
def ValidName (name : String × String) : Prop := validateName name.1 name.2 = .ok ()

theorem pushString_append_inj {a b c d : String} (first : a.utf8ByteSize < 2 ^ 64) (second : c.utf8ByteSize < 2 ^ 64)
    (same : pushString a ++ pushString b = pushString c ++ pushString d) :
    a = c ∧ pushString b = pushString d := by
  have front : ∀ text : String, text.utf8ByteSize < 2 ^ 64 → (string "").Reads (pushString text) text := fun _ =>
    reads_string
  have left := front a first (pushString b)
  rw [same, front c second] at left
  simpa [eq_comm] using left

variable {name : String × String}

theorem ValidName.word (valid : ValidName name) :
    name.1.utf8ByteSize < 2 ^ 64 ∧ name.2.utf8ByteSize < 2 ^ 64 := by
  unfold ValidName validateName at valid
  split at valid
  · next within =>
      obtain ⟨⟨-, module⟩, -, key⟩ := within
      rw [maxWatchModuleIdBytes] at module
      rw [maxPinNameBytes] at key
      omega
  · cases valid

theorem prefix_of_eq {p q : List String} (same : p = q) : p <+: q := same ▸ prefix_rfl

section paths

variable (shards : H.Shards) (injective : Injective H.sha256) {name : String × String}
include shards

theorem shards_inj {lane lane' : String} {a b : ObjectId} (above : Retention.shards H lane a <+: Retention.shards H lane' b) :
    lane = lane' ∧ a = b := by
  obtain ⟨same, below⟩ := cons_prefix_cons.mp above
  exact ⟨same, shards.apart _ _ below⟩

theorem membershipPath_inj {a b : ObjectId} (above : membershipPath H a <+: membershipPath H b) : a = b :=
  (shards_inj shards above).2

theorem membership_apart_reference {id : ObjectId} :
    ¬ membershipPath H id <+: referencePath H name.1 name.2 := fun above => by
  simpa using (shards_inj shards above).1

theorem reference_apart_membership {id : ObjectId} :
    ¬ referencePath H name.1 name.2 <+: membershipPath H id := fun above => by
  simpa using (shards_inj shards above).1

include injective

theorem referencePath_inj {a b : String × String} (validA : ValidName a) (validB : ValidName b)
    (above : referencePath H a.1 a.2 <+: referencePath H b.1 b.2) : a = b := by
  have same := (objectId_inj injective (shards_inj shards above).2).2
  obtain ⟨module, rest⟩ := pushString_append_inj validA.word.1 validB.word.1 same
  have key := pushString_append_inj validA.word.2 validB.word.2 (congrArg (· ++ pushString "") rest)
  exact Prod.ext module key.1

end paths

/-- A path at which the catalog keeps records. -/
def IsPath (H : Hash) (path : List String) : Prop :=
  (∃ name, ValidName name ∧ path = referencePath H name.1 name.2) ∨ ∃ id, path = membershipPath H id

variable {path : List String}

theorem IsPath.nonempty (isPath : IsPath H path) : path ≠ [] := by
  obtain ⟨name, -, rfl⟩ | ⟨id, rfl⟩ := isPath
  · simp [referencePath, shards]
  · simp [membershipPath, shards]

theorem IsPath.short (shards : H.Shards) (isPath : IsPath H path) : ShortNames path := by
  have lane : ∀ lane id, lane.utf8ByteSize ≤ maxNameBytes → ShortNames (Retention.shards H lane id) := by
    intro lane id small name mem
    obtain rfl | below := mem_cons.mp mem
    · exact small
    · exact shards.short id name below
  obtain ⟨name, -, rfl⟩ | ⟨id, rfl⟩ := isPath
  · exact lane _ _ (by decide)
  · exact lane _ _ (by decide)

/-- No record's path begins another's. -/
theorem IsPath.apart (shards : H.Shards) (injective : Injective H.sha256) {p q : List String}
    (first : IsPath H p) (second : IsPath H q) (above : p <+: q) : p = q := by
  obtain ⟨a, validA, rfl⟩ | ⟨a, rfl⟩ := first
  · obtain ⟨b, validB, rfl⟩ | ⟨b, rfl⟩ := second
    · rw [referencePath_inj shards injective validA validB above]
    · exact absurd above (reference_apart_membership shards)
  · obtain ⟨b, validB, rfl⟩ | ⟨b, rfl⟩ := second
    · exact absurd above (membership_apart_reference shards)
    · rw [membershipPath_inj shards above]

/-! ## Live references and their counts -/

/-- The reference names the snapshot. -/
def Names (H : Hash) (held : Option RetentionReference) (id : ObjectId) : Prop := snapshotOf H held = .ok (some id)

/-- The number of live references that name a snapshot. -/
noncomputable def naming (H : Hash) (live : String × String → Option RetentionReference) (id : ObjectId) : Nat :=
  {name | Names H (live name) id}.ncard

theorem names_some {held : Option RetentionReference} :
    Names H held id ↔ ∃ reference, held = some reference ∧ snapshotId H reference.snapshot = .ok id := by
  cases held with
  | none => simp [Names, snapshotOf]
  | some reference =>
    rw [Names, snapshotOf]
    cases spelled : snapshotId H reference.snapshot <;> simp [Except.map, spelled]

theorem canonical_of_named (named : naming H live id ≠ 0) : snapshotId H (H.toHex id) = .ok id := by
  obtain ⟨name, names⟩ := nonempty_of_ncard_ne_zero named
  obtain ⟨reference, -, spelled⟩ := names_some.mp names
  rwa [(snapshotId_ok.mp spelled).2]

/-- The live references of a catalog. -/
structure Tame (H : Hash) (live : String × String → Option RetentionReference) : Prop where
  valid : ∀ name, live name ≠ none → ValidName name
  finite : {name | live name ≠ none}.Finite
  fits : ∀ name reference, live name = some reference → (Record.reference reference).Fits H
  counts : ∀ id, naming H live id < 2 ^ 64

open Classical in
/-- Sets that differ in one element at most. -/
theorem ncard_swap {α : Type} {S T : Set α} {a : α} (finite : S.Finite) (agree : ∀ b, b ≠ a → (b ∈ T ↔ b ∈ S)) :
    T.ncard + (if a ∈ S then 1 else 0) = S.ncard + if a ∈ T then 1 else 0 := by
  have split : ∀ U : Set α, U.Finite → U.ncard = (U \ {a}).ncard + if a ∈ U then 1 else 0 := by
    intro U finite
    split
    · next mem => exact (ncard_sdiff_singleton_add_one mem finite).symm
    · next absent => rw [sdiff_singleton_eq_self absent, Nat.add_zero]
  have same : T \ {a} = S \ {a} := by
    ext b
    by_cases here : b = a
    · simp [here]
    · simp [here, agree b here]
  have finite' : T.Finite := (finite.insert a).subset fun b mem => by
    by_cases here : b = a
    · exact .inl here
    · exact .inr ((agree b here).mp mem)
  rw [split T finite', split S finite, same]
  omega

namespace Tame

variable {live : String × String → Option RetentionReference} {name : String × String}
  {new : Option RetentionReference}

theorem finite_names (tame : Tame H live) (id : ObjectId) : {name | Names H (live name) id}.Finite :=
  tame.finite.subset fun name names absent => by
    obtain ⟨reference, here, -⟩ := names_some.mp names
    rw [absent] at here
    cases here

open Classical in
/-- One exchange moves the counts of the old and the new snapshot. -/
theorem naming_update (tame : Tame H live) (name : String × String) (new : Option RetentionReference)
    (id : ObjectId) :
    naming H (update live name new) id + (if Names H (live name) id then 1 else 0) =
      naming H live id + if Names H new id then 1 else 0 := by
  have swap := ncard_swap (a := name) (T := {other | Names H (update live name new other) id})
    (tame.finite_names id) fun other apart => by
      rw [mem_ofPred_eq, update_of_ne apart, mem_ofPred_eq]
  simpa only [naming, mem_ofPred_eq, update_self] using swap

theorem update (tame : Tame H live) (valid : ValidName name)
    (fits : ∀ reference, new = some reference → (Record.reference reference).Fits H)
    (room : ∀ id, Names H new id → ¬ Names H (live name) id → naming H live id + 1 < 2 ^ 64) :
    Tame H (update live name new) := by
  refine ⟨fun other present => ?_, (tame.finite.insert name).subset fun other present => ?_,
    fun other reference here => ?_, fun id => ?_⟩
  · by_cases same : other = name
    · rwa [same]
    · rw [update_of_ne same] at present
      exact tame.valid other present
  · by_cases same : other = name
    · exact .inl same
    · rw [mem_ofPred_eq, update_of_ne same] at present
      exact .inr present
  · by_cases same : other = name
    · rw [same, update_self] at here
      exact fits reference here
    · rw [update_of_ne same] at here
      exact tame.fits other reference here
  · have moved := tame.naming_update name new id
    have old := tame.counts id
    by_cases before : Names H (live name) id
    · rw [if_pos before] at moved
      split at moved <;> omega
    rw [if_neg before] at moved
    split at moved
    · next after =>
        have := room id after before
        omega
    · omega

end Tame

/-! ## The records of a catalog -/

/-- The entries of some records. -/
def leaves (H : Hash) (records : List String → Option Record) : List String → Option TreeEntry := fun path =>
  (records path).map (Record.entry H)

/-- An overlay shows some records, all of them at the catalog's paths. -/
structure Overlay (H : Hash) (look : (q : Read) → q.Answer) (node : Node) (records : List String → Option Record) :
    Prop where
  sound : node.Sound H look
  shows : node.denote H look = spread (leaves H records)
  within : ∀ path, records path ≠ none → IsPath H path

variable {out' : List (Kind × Bytes)}

section overlay

variable {records : List String → Option Record} {node node' : Node} {path : List String}
  {out : List (Kind × Bytes)}

theorem Overlay.clear (shards : H.Shards) (injective : Injective H.sha256) (overlay : Overlay H look node records)
    (isPath : IsPath H path) : Clear (leaves H records) path := by
  intro q present near
  have other := overlay.within q fun absent => present (by rw [leaves, absent, map_none])
  obtain above | below := near
  · exact other.apart shards injective isPath above
  · exact (isPath.apart shards injective other below).symm

/-- Some records became others in a directory in memory, and the files of the new ones were emitted. -/
structure Written (H : Hash) (look : (q : Read) → q.Answer) (records : List String → Option Record) (node : Node)
    (records' : List String → Option Record) (out : List (Kind × Bytes)) : Prop extends Overlay H look node records' where
  rooted : ∃ children, node = .dir children
  emits : ∀ path record, records' path = some record →
    records path = some record ∨ (.file, (record.file H).encode H) ∈ out

theorem Written.append {records' records'' : List String → Option Record}
    (first : Written H look records node records' out)
    (second : Written H look records' node' records'' out') :
    Written H look records node' records'' (out ++ out') where
  toOverlay := second.toOverlay
  rooted := second.rooted
  emits path record here := by
    obtain before | fresh := second.emits path record here
    · exact (first.emits path record before).imp_right fun mem => mem_append_left _ mem
    · exact .inr (mem_append_right _ fresh)

/-- One write. -/
theorem Overlay.write (shards : H.Shards) (injective : Injective H.sha256)
    (overlay : Overlay H look node records) (isPath : IsPath H path) {record : Option Record}
    (ran : value look (write H path node record) = .ok (node', out)) :
    Written H look records node' (update records path record) out := by
  obtain ⟨sound, shows, rooted, rfl⟩ := value_write (isPath.short shards) isPath.nonempty
    (overlay.clear shards injective isPath) overlay.sound overlay.shows ran
  refine ⟨⟨sound, shows.trans ?_, fun q present => ?_⟩, rooted, fun q kept here => ?_⟩
  · congr 1
    funext q
    by_cases here : q = path <;> simp [leaves, here]
  · by_cases same : q = path
    · rwa [same]
    · rw [update_of_ne same] at present
      exact overlay.within q present
  · by_cases same : q = path
    · rw [same, update_self] at here
      exact .inr (by simp [here])
    · rw [update_of_ne same] at here
      exact .inl here

end overlay

/-- The records of some live references. -/
structure Catalog (H : Hash) (live : String × String → Option RetentionReference)
    (records : List String → Option Record) : Prop where
  tame : Tame H live
  references : ∀ name, ValidName name → records (referencePath H name.1 name.2) = (live name).map .reference
  memberships : ∀ id, records (membershipPath H id) = membership id (naming H live id)
  only : ∀ path, records path ≠ none → IsPath H path

/-- A root holds the catalog of some live references. -/
structure Holds (H : Hash) (look : (q : Read) → q.Answer) (root : Option ObjectId)
    (live : String × String → Option RetentionReference) (records : List String → Option Record) : Prop
    extends Catalog H live records where
  whole : ∀ id, root = some id → TreeWhole H look id
  shows : (TreeEdit.load root).denote H look = spread (leaves H records)
  stored : ∀ path record, records path = some record →
    look (.get (record.entry H).id) = some (.file, (record.file H).encode H)
  bare : root = none ↔ ∀ name, live name = none

section reads

variable {root : Option ObjectId} {live : String × String → Option RetentionReference}
  {records : List String → Option Record} {path : List String} {next previous : Option ObjectId}

theorem Catalog.record_fits (catalog : Catalog H live records) {record : Record} (here : records path = some record) :
    record.Fits H := by
  obtain ⟨name, valid, rfl⟩ | ⟨id, rfl⟩ := catalog.only path (by simp [here])
  · rw [catalog.references name valid, map_eq_some_iff] at here
    obtain ⟨reference, held, rfl⟩ := here
    exact catalog.tame.fits name reference held
  · rw [catalog.memberships, membership] at here
    split at here
    · cases here
    · next named =>
        cases here
        exact ⟨canonical_of_named named, named, catalog.tame.counts id⟩

/-- No record exactly when nothing is live. -/
theorem Catalog.bare_iff (catalog : Catalog H live records) :
    (∀ path, records path = none) ↔ ∀ name, live name = none := by
  constructor
  · intro bare name
    by_contra present
    have here := catalog.references name (catalog.tame.valid name present)
    rw [bare, eq_comm, map_eq_none_iff] at here
    exact present here
  · intro bare path
    by_contra present
    obtain ⟨name, valid, rfl⟩ | ⟨id, rfl⟩ := catalog.only path present
    · rw [catalog.references name valid, bare] at present
      exact present rfl
    have none : {name | Names H (live name) id} = ∅ := by
      simp [bare, Names, snapshotOf]
    rw [catalog.memberships, naming, none, ncard_empty] at present
    exact present rfl

theorem Holds.overlay (holds : Holds H look root live records) : Overlay H look (load root) records where
  sound := by
    cases root with
    | none => trivial
    | some id => exact ⟨by simp, fun _ => holds.whole id rfl⟩
  shows := holds.shows
  within := holds.only

/-- **A read of the catalog gives the record.** -/
theorem Holds.value_getRecord (frames : H.Frames) (shards : H.Shards) (injective : Injective H.sha256)
    (holds : Holds H look root live records) (isPath : IsPath H path) :
    value look (getRecord H root path) = .ok (records path) := by
  have overlay := holds.overlay
  have shown := congrFun overlay.shows path
  rw [getRecord, value_bind, TreeEdit.get, value_walkGet overlay.sound isPath.nonempty]
  cases here : records path with
  | none =>
    rw [spread_none isPath.nonempty, Node.denote, map_eq_none_iff] at shown
    · rw [shown]
      rfl
    · intro rest
      by_cases below : rest = []
      · rw [below, append_nil, leaves, here, map_none]
      · exact (overlay.clear shards injective isPath).none_below rest below
  | some record =>
    have leaf : leaves H records path = some (record.entry H) := by rw [leaves, here, map_some]
    rw [spread_leaf leaf, Node.denote, map_eq_some_iff] at shown
    obtain ⟨found, at_, item⟩ := shown
    have isRef : found = .ref (record.entry H) := by
      cases found with
      | dir children => cases item
      | ref entry =>
        rw [Node.item] at item
        split at item
        · cases item
        · cases item
          rfl
    rw [at_, isRef]
    have fetched : value look (Access.get (record.entry H).id) = .ok (some (.file, (record.file H).encode H)) :=
      congrArg Except.ok (holds.stored path record here)
    have decoded := decodeRecord_encode frames shards (holds.record_fits here)
    have file : (record.entry H).kind = .file := rfl
    simp [Node.build, Except.map, Except.bind, file, fetched, decoded, liftExcept]

variable (frames : H.Frames) (shards : H.Shards) (injective : Injective H.sha256)
include frames shards injective

theorem Holds.value_get (holds : Holds H look root live records) {module key : String} (valid : ValidName (module, key)) :
    value look (get H root module key) = .ok (live (module, key)) := by
  have read := holds.value_getRecord frames shards injective (.inl ⟨_, valid, rfl⟩)
  rw [holds.references _ valid] at read
  have named : value look (liftExcept (validateName module key)) = .ok () := by
    rw [show validateName module key = .ok () from valid]
    rfl
  rw [get, value_bind, named]
  rw [value_bind, read]
  cases live (module, key) <;> rfl

theorem Holds.value_count (holds : Holds H look root live records) (id : ObjectId) :
    value look (count H root id) = .ok (naming H live id) := by
  rw [count, value_bind, holds.value_getRecord frames shards injective (.inr ⟨id, rfl⟩), holds.memberships, membership]
  by_cases none : naming H live id = 0
  · rw [none]
    rfl
  · rw [if_neg none]
    simp [Except.bind]

theorem Holds.value_contains (holds : Holds H look root live records) (id : ObjectId) :
    ∃ named, value look (contains H root id) = .ok named ∧ (named = true ↔ ∃ name, Names H (live name) id) := by
  refine ⟨decide (naming H live id ≠ 0), ?_, ?_⟩
  · rw [contains, value_bind, holds.value_count frames shards injective]
    rfl
  · rw [decide_eq_true_iff, naming, Ne, ncard_eq_zero (holds.tame.finite_names id), ← Ne,
      ← nonempty_iff_ne_empty]
    rfl

/-! ## One exchange -/

omit frames shards injective in
theorem value_liftExcept {α : Type} (result : Except String α) : value look (liftExcept result) = result := by
  cases result <;> rfl

/-- The records with another count of a snapshot. -/
def counted (H : Hash) (records : List String → Option Record) (id : ObjectId) (n : Nat) : List String → Option Record :=
  update records (membershipPath H id) (membership id n)

variable {records' : List String → Option Record} {node node' : Node} {out : List (Kind × Bytes)} {id : ObjectId}

theorem Holds.release (holds : Holds H look root live records) (overlay : Overlay H look node records')
    (ran : value look (release H root id node) = .ok (node', out)) :
    Written H look records' node' (counted H records' id (naming H live id - 1)) out := by
  rw [Retention.release, value_bind, holds.value_count frames shards injective] at ran
  change value look (if _ then _ else _) = _ at ran
  split at ran
  · cases ran
  · exact overlay.write shards injective (.inr ⟨id, rfl⟩) ran

theorem Holds.retain (holds : Holds H look root live records) (overlay : Overlay H look node records')
    (ran : value look (retain H root id node) = .ok (node', out)) :
    naming H live id + 1 < 2 ^ 64 ∧
      Written H look records' node' (counted H records' id (naming H live id + 1)) out := by
  rw [Retention.retain, value_bind, holds.value_count frames shards injective] at ran
  change value look (if _ then _ else _) = _ at ran
  split at ran
  · cases ran
  · next room => exact ⟨by omega, overlay.write shards injective (.inr ⟨id, rfl⟩) ran⟩

/-- The records after the counts moved from one snapshot to another. -/
noncomputable def recounted (H : Hash) (live : String × String → Option RetentionReference)
    (previous next : Option ObjectId) (records : List String → Option Record) : List String → Option Record :=
  if previous = next then records
  else
    let dropped := previous.elim records fun id => counted H records id (naming H live id - 1)
    next.elim dropped fun id => counted H dropped id (naming H live id + 1)

theorem Holds.recount (holds : Holds H look root live records)
    (written : Written H look records node records' out)
    (ran : value look (recount H root previous next node) = .ok (node', out')) :
    (previous ≠ next → ∀ id, next = some id → naming H live id + 1 < 2 ^ 64) ∧
      Written H look records node' (recounted H live previous next records') (out ++ out') := by
  rw [Retention.recount, value_ite] at ran
  rw [recounted]
  split at ran
  · next same =>
      cases ran
      rw [if_pos same, append_nil]
      exact ⟨fun apart => absurd same apart, written⟩
  next apart =>
  rw [if_neg apart]
  rw [value_bind] at ran
  obtain ⟨⟨middle, dropped⟩, drops, ran⟩ := bind_ok_iff.mp ran
  rw [value_bind] at ran
  obtain ⟨⟨after, added⟩, adds, ran⟩ := bind_ok_iff.mp ran
  cases ran
  have first : Written H look records middle
      (previous.elim records' fun id => counted H records' id (naming H live id - 1)) (out ++ dropped) := by
    cases previous with
    | none =>
      cases drops
      rwa [append_nil]
    | some id => exact written.append (holds.release frames shards injective written.toOverlay drops)
  rw [← append_assoc]
  cases next with
  | none =>
    cases adds
    rw [append_nil]
    exact ⟨by simp, first⟩
  | some id =>
    obtain ⟨room, second⟩ := holds.retain frames shards injective first.toOverlay adds
    refine ⟨?_, first.append second⟩
    rintro - _ ⟨⟩
    exact room

omit frames injective in
theorem counted_other (n : Nat) {other : ObjectId} (apart : other ≠ id) :
    counted H records id n (membershipPath H other) = records (membershipPath H other) :=
  update_of_ne (fun same => apart (membershipPath_inj shards (prefix_of_eq same))) ..

omit frames injective in
theorem counted_reference (n : Nat) (name : String × String) :
    counted H records id n (referencePath H name.1 name.2) = records (referencePath H name.1 name.2) :=
  update_of_ne (fun same => reference_apart_membership shards (prefix_of_eq same)) ..

omit frames injective in
theorem recounted_membership (apart : previous ≠ next) (id : ObjectId) :
    recounted H live previous next records (membershipPath H id) =
      if next = some id then membership id (naming H live id + 1)
      else if previous = some id then membership id (naming H live id - 1)
      else records (membershipPath H id) := by
  have dropped : previous.elim records (fun id => counted H records id (naming H live id - 1)) (membershipPath H id) =
      if previous = some id then membership id (naming H live id - 1) else records (membershipPath H id) := by
    cases previous with
    | none => rfl
    | some old =>
      by_cases same : old = id
      · simp [same, counted]
      · simp [same, counted_other shards _ (Ne.symm same)]
  rw [recounted, if_neg apart, ← dropped]
  cases next with
  | none => rfl
  | some new =>
    by_cases same : new = id
    · simp [same, counted]
    · simp [same, counted_other shards _ (Ne.symm same)]

omit frames in
/-- The catalog after an exchange. -/
theorem Catalog.exchange (catalog : Catalog H live records) (valid : ValidName name)
    {new : Option RetentionReference} (before : snapshotOf H (live name) = .ok previous)
    (after : snapshotOf H new = .ok next)
    (fits : ∀ reference, new = some reference → (Record.reference reference).Fits H)
    (room : previous ≠ next → ∀ id, next = some id → naming H live id + 1 < 2 ^ 64)
    (within : ∀ path, records' path ≠ none → IsPath H path) {middle : List String → Option Record}
    (put : middle = update records (referencePath H name.1 name.2) (new.map .reference))
    (moved : records' = recounted H live previous next middle) :
    Catalog H (update live name new) records' := by
  have old : ∀ id, Names H (live name) id ↔ previous = some id := fun id => by rw [Names, before, ok.injEq]
  have fresh : ∀ id, Names H new id ↔ next = some id := fun id => by rw [Names, after, ok.injEq]
  have counts : ∀ id, middle (membershipPath H id) = membership id (naming H live id) := fun id => by
    rw [put, update_of_ne fun same => membership_apart_reference shards (prefix_of_eq same),
      catalog.memberships]
  refine ⟨catalog.tame.update valid fits fun id named unnamed => ?_, fun other validOther => ?_, fun id => ?_, within⟩
  · rw [fresh] at named
    rw [old] at unnamed
    exact room (fun same => unnamed (same.trans named)) id named
  · have kept : records' (referencePath H other.1 other.2) = middle (referencePath H other.1 other.2) := by
      rw [moved, recounted]
      split
      · rfl
      · cases previous <;> cases next <;> simp [counted_reference shards]
    rw [kept, put]
    by_cases same : other = name
    · rw [same, update_self, update_self]
    · rw [update_of_ne same, update_of_ne, catalog.references other validOther]
      exact fun paths => same (referencePath_inj shards injective validOther valid (prefix_of_eq paths))
  · have shifted := catalog.tame.naming_update name new id
    simp only [old, fresh] at shifted
    by_cases same : previous = next
    · rw [same] at shifted
      rw [moved, recounted, if_pos same, counts, Nat.add_right_cancel shifted]
    rw [moved, recounted_membership shards same, counts]
    split
    · next added =>
        rw [if_pos added, if_neg fun dropped => same (dropped.trans added.symm)] at shifted
        rw [← shifted]
        rfl
    · next kept =>
        rw [if_neg kept] at shifted
        split
        · next dropped =>
            rw [if_pos dropped] at shifted
            congr 1
            omega
        · next kept' =>
            rw [if_neg kept'] at shifted
            rw [Nat.add_right_cancel shifted]

omit frames shards injective

theorem checkReference_ok {reference : RetentionReference} (checked : checkReference H (some reference) = .ok ()) :
    (∃ id, snapshotId H reference.snapshot = .ok id) ∧ reference.revision ≠ 0 := by
  rw [checkReference] at checked
  obtain ⟨id, named, rest⟩ := bind_ok_iff.mp checked
  refine ⟨⟨id, named⟩, fun zero => ?_⟩
  rw [if_pos zero] at rest
  cases rest

variable {module key : String} {expected replacement : Option RetentionReference} {built : Built}

/-- What an accepted exchange has checked and done. -/
theorem compareExchange_ok (ran : value look (compareExchange H root module key expected replacement) = .ok built) :
    ValidName (module, key) ∧ checkReference H replacement = .ok () ∧
      value look (get H root module key) = .ok expected ∧
      ((expected = replacement ∧ built = ⟨root, []⟩) ∨
        ∃ node files previous next node' counts root' trees,
          value look (write H (referencePath H module key) (TreeEdit.load root) (replacement.map .reference)) =
              .ok (node, files) ∧
            snapshotOf H expected = .ok previous ∧ snapshotOf H replacement = .ok next ∧
            value look (recount H root previous next node) = .ok (node', counts) ∧
            TreeEdit.build H node' = .ok (root', trees) ∧ built = ⟨root', files ++ counts ++ trees⟩) := by
  simp only [compareExchange, value_bind, value_liftExcept] at ran
  obtain ⟨_, valid, ran⟩ := bind_ok_iff.mp ran
  obtain ⟨_, -, ran⟩ := bind_ok_iff.mp ran
  obtain ⟨_, checked, ran⟩ := bind_ok_iff.mp ran
  obtain ⟨current, read, ran⟩ := bind_ok_iff.mp ran
  split at ran
  · cases ran
  next same =>
    obtain rfl := not_not.mp same
    refine ⟨valid, checked, read, ?_⟩
    split at ran
    · next unchanged => exact .inl ⟨unchanged, (ok.inj ran).symm⟩
    split at ran
    · cases ran
    simp only [value_bind, value_liftExcept] at ran
    obtain ⟨⟨node, files⟩, written, ran⟩ := bind_ok_iff.mp ran
    obtain ⟨previous, before, ran⟩ := bind_ok_iff.mp ran
    obtain ⟨next, after, ran⟩ := bind_ok_iff.mp ran
    obtain ⟨⟨node', counts⟩, counted, ran⟩ := bind_ok_iff.mp ran
    obtain ⟨⟨root', trees⟩, builds, ran⟩ := bind_ok_iff.mp ran
    exact .inr ⟨node, files, previous, next, node', counts, root', trees, written, before, after, counted, builds,
      (ok.inj ran).symm⟩

theorem Holds.extends {objects : List (Kind × Bytes)} (holds : Holds H look root live records)
    (ext : Extends H look look' objects) : Holds H look' root live records where
  toCatalog := holds.toCatalog
  whole id named := (holds.whole id named).extends ext
  shows := by
    rw [← holds.shows]
    funext path
    rw [denote, denote, holds.overlay.sound.find_extends ext]
  stored path record here := ext.1 _ _ (holds.stored path record here)
  bare := holds.bare

/-- An overlay in memory builds to no root exactly when it shows no record. -/
theorem Overlay.build_bare (overlay : Overlay H look node records) (rooted : ∃ children, node = .dir children)
    {trees : List (Kind × Bytes)} (builds : TreeEdit.build H node = .ok (root, trees)) :
    root = none ↔ ∀ path, records path = none := by
  obtain ⟨children, rfl⟩ := rooted
  have empty : root = none ↔ children = .nil := by
    cases children with
    | nil =>
      cases builds
      simp
    | cons name child rest =>
      obtain ⟨_, -, same⟩ := bind_ok_iff.mp builds
      cases same
      simp
  have child : ∀ name, spread (leaves H records) [name] = (children.lookup name).map item := fun name => by
    rw [← overlay.shows]
    exact denote_child_of_find (show find H look [] _ = _ from rfl) name
  rw [empty]
  constructor
  · rintro rfl path
    by_contra present
    obtain ⟨record, here⟩ := ne_none_iff_exists'.mp present
    have shown := congrFun overlay.shows path
    rw [spread_leaf (by rw [leaves, here, map_some])] at shown
    cases path with
    | nil => exact (overlay.within _ present).nonempty rfl
    | cons name rest => simp [denote, Children.lookup] at shown
  · intro bare
    refine nil_of_bare fun name => ?_
    have shown := child name
    rw [spread_none (by simp) fun rest => by rw [leaves, bare, map_none]] at shown
    simpa using shown.symm

/-- **One accepted exchange.** -/
theorem Holds.compareExchange (frames : H.Frames) (shards : H.Shards) (injective : Injective H.sha256)
    (holds : Holds H look root live records)
    (word : ∀ reference, replacement = some reference → reference.revision < 2 ^ 64)
    (ran : value look (compareExchange H root module key expected replacement) = .ok built)
    (ext : Extends H look look' built.objects) :
    ∃ records', Holds H look' built.root (update live (module, key) replacement) records' := by
  obtain ⟨valid, checked, read, steps⟩ := compareExchange_ok ran
  rw [holds.value_get frames shards injective valid] at read
  obtain rfl := ok.inj read
  obtain ⟨rfl, rfl⟩ | ⟨node, files, previous, next, node', counts, root', trees, wrote, before, after, counted, builds,
    rfl⟩ := steps
  · rw [update_eq_self]
    exact ⟨records, holds.extends ext⟩
  have written := holds.overlay.write shards injective (.inl ⟨_, valid, rfl⟩) wrote
  obtain ⟨room, written⟩ := holds.recount frames shards injective written counted
  have fits : ∀ reference, replacement = some reference → (Record.reference reference).Fits H := by
    rintro reference rfl
    obtain ⟨named, positive⟩ := checkReference_ok checked
    exact ⟨named, positive, word reference rfl⟩
  have catalog := holds.exchange shards injective valid before after fits room written.within rfl rfl
  have rooted : node'.item = .dir := by
    obtain ⟨children, rfl⟩ := written.rooted
    rfl
  have grown : Extends H look look' trees := ⟨ext.1, fun object mem => ext.2 object (mem_append_right _ mem)⟩
  obtain ⟨shows, whole, -⟩ := denote_build frames written.sound rooted builds grown
  refine ⟨_, catalog, whole, shows.trans written.shows, fun path record here => ?_, ?_⟩
  · obtain kept | fresh := written.emits path record here
    · exact ext.1 _ _ (holds.stored path record kept)
    · exact ext.2 _ (mem_append_left _ fresh)
  · exact (written.build_bare written.rooted builds).trans catalog.bare_iff

end reads

/-! ## Runs -/

/-- One call, with the read budget it runs under. -/
structure Exchange where
  module : String
  key : String
  expected : Option RetentionReference
  replacement : Option RetentionReference
  budget : Option ReadBudget

/-- A catalog root and the objects behind it. -/
structure Held where
  root : Option ObjectId
  store : Store

/-- Carry out a call: its objects are staged and its root adopted. -/
def Held.exchange (H : Hash) (held : Held) (call : Exchange) : Except String Held := do
  let built ← Store.run H { held.store with budget := call.budget }
    (compareExchange H held.root call.module call.key call.expected call.replacement)
  pure ⟨built.root, held.store.stage built.objects⟩

/-- The calls a run accepts, and where it ends. A refused call changes nothing. -/
def Held.run (H : Hash) : Held → List Exchange → List Exchange × Held
  | held, [] => ([], held)
  | held, call :: calls =>
    match held.exchange H call with
    | .ok next => (call :: (next.run H calls).1, (next.run H calls).2)
    | .error _ => held.run H calls

/-- The last value of each name. -/
def lastValues (live : String × String → Option RetentionReference) (accepted : List Exchange) :
    String × String → Option RetentionReference :=
  accepted.foldl (fun live call => update live (call.module, call.key) call.replacement) live

/-- No catalog holds no live reference. -/
theorem holds_none : Holds H look none (fun _ => none) fun _ => none where
  tame := by
    have bare : ∀ id, naming H (fun _ => none) id = 0 := fun id => by simp [naming, Names, snapshotOf]
    exact ⟨by simp, by simp, by simp, fun id => by rw [bare]; exact Nat.two_pow_pos 64⟩
  references _ _ := rfl
  memberships id := by simp [naming, Names, snapshotOf, membership]
  only _ present := absurd rfl present
  whole _ named := nomatch named
  shows := by
    funext path
    cases path with
    | nil => simp [load, spread, leaves]
    | cons name path => simp [load, denote, Children.lookup, spread, leaves]
  stored _ _ here := nomatch here
  bare := by simp

theorem Held.run_holds (frames : H.Frames) (shards : H.Shards) (injective : Injective H.sha256)
    {records : List String → Option Record} (held : Held) {calls : List Exchange}
    (addressed : held.store.Addressed H) (holds : Holds H (held.store.look H) held.root live records)
    (words : ∀ call ∈ calls, ∀ reference, call.replacement = some reference → reference.revision < 2 ^ 64) :
    (held.run H calls).2.store.budget = held.store.budget ∧
      ∃ records', Holds H ((held.run H calls).2.store.look H) (held.run H calls).2.root
        (lastValues live (held.run H calls).1) records' := by
  induction calls generalizing held live records with
  | nil => exact ⟨rfl, records, holds⟩
  | cons call calls ih =>
    have words' := fun call mem => words call (mem_cons_of_mem _ mem)
    rw [Held.run]
    cases ran : held.exchange H call with
    | error e => exact ih held addressed holds words'
    | ok next =>
      obtain ⟨built, accepted, same⟩ := bind_ok_iff.mp ran
      cases same
      have valued := Store.value_of_run accepted
      obtain ⟨records', holds'⟩ := holds.compareExchange frames shards injective (words call mem_cons_self)
        valued (Store.extends_stage injective addressed built.objects)
      exact ih _ addressed holds' words'

/-- The bytes of an id in short pieces. -/
def pieces (id : ObjectId) : List Bytes := if id.length ≤ 60 then [id] else id.map fun byte => [byte]

/-- A collision-free digest whose ids are spelled in few short names. -/
def tightHash : Hash :=
  { plainHash with
    fromHex32 text := if text.utf8ByteSize ≤ maxMetaValueBytes then plainHash.fromHex32 text else none
    digits id := (pieces id).map (fun piece => "x" ++ plainHash.toHex piece) ++ [""] }

theorem pieces_flatten (id : ObjectId) : (pieces id).flatten = id := by
  unfold pieces
  split
  · simp
  · rw [← flatMap_def, flatMap_singleton']

theorem length_le_of_mem_pieces {piece : Bytes} (mem : piece ∈ pieces id) : piece.length ≤ 60 := by
  unfold pieces at mem
  split at mem
  · simp_all
  · simp at mem
    obtain ⟨byte, -, rfl⟩ := mem
    simp

theorem plainHash_fromHex32_toHex (id : ObjectId) : plainHash.fromHex32 (plainHash.toHex id) = some id := by
  have byte : ∀ byte : UInt8, UInt8.ofNat (Char.ofNat byte.toNat).toNat = byte := by
    intro byte
    have small := byte.toNat_lt
    have valid : byte.toNat.isValidChar := .inl (by omega)
    rw [Char.ofNat, dif_pos valid]
    exact UInt8.ofNat_toNat
  simp only [plainHash, String.toList_ofList, List.map_map]
  exact congrArg some ((List.map_congr_left fun char _ => byte char).trans (List.map_id _))

theorem tightHash_shards : tightHash.Shards where
  apart a b above := by
    have names : (pieces a).map (fun piece => "x" ++ plainHash.toHex piece) =
        (pieces b).map fun piece => "x" ++ plainHash.toHex piece := by
      obtain same | inside := List.prefix_concat_iff.mp above
      · exact List.append_cancel_right same
      · simpa using inside.subset (List.mem_append_right _ (List.mem_singleton_self ""))
    rw [← pieces_flatten a, ← pieces_flatten b]
    congr 1
    refine List.map_injective_iff.mpr (fun p q same => ?_) names
    have hex : plainHash.toHex p = plainHash.toHex q := by simpa using same
    have read := plainHash_fromHex32_toHex p
    rw [hex, plainHash_fromHex32_toHex] at read
    exact (some.inj read).symm
  short a name mem := by
    have size := utf8ByteSize_le name
    rw [maxNameBytes]
    simp only [tightHash, List.mem_append, List.mem_map, List.mem_singleton] at mem
    obtain ⟨piece, mem, rfl⟩ | rfl := mem
    · have := length_le_of_mem_pieces mem
      have one : "x".length = 1 := rfl
      have hex : (plainHash.toHex piece).length = piece.length := by simp [plainHash]
      rw [String.length_append] at size
      omega
    · simp
  hex text id named := by
    simp only [tightHash] at named
    split at named
    · next short => exact short
    · cases named

/-- Two names take a snapshot each; in between, a revision is refused. -/
def someCalls : List Exchange :=
  [⟨"a", "k", none, some ⟨"s", 1⟩, none⟩, ⟨"b", "k", none, some ⟨"s", 0⟩, none⟩, ⟨"b", "k", none, some ⟨"t", 1⟩, none⟩]

end Retention

end Ducktape.Duckfs
