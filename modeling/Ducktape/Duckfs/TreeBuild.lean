import Ducktape.Duckfs.TreeSound

/-! # What a tree edit builds

The objects an edit emits, together with the store, show exactly what its overlay showed: `find_build`
says which entry stands at every path. `edits_refine` assembles the refinement of plain namespaces over
whole runs of operations and their build. -/

namespace Ducktape.Duckfs

open Lib Lib.Attempt Std Option Node Children Prod Except List TreeEdit TreeObj

variable {H : Hash} {look : (q : Read) → q.Answer}

/-! ## Views that hold more -/

/-- The second view answers whatever the first does, and holds the objects besides. -/
def Extends (H : Hash) (look look' : (q : Read) → q.Answer) (objects : List (Kind × Bytes)) : Prop :=
  (∀ id object, look (.get id) = some object → look' (.get id) = some object) ∧
    ∀ object ∈ objects, look' (.get (objectId H object.1 object.2)) = some object

variable {id : ObjectId}

section Extension

variable {look' : (q : Read) → q.Answer} {objects : List (Kind × Bytes)}
  {entries : ExtTreeMap String TreeEntry} {node : Node} {entry : TreeEntry}
  {out : List (Kind × Bytes)}

theorem entriesOf_extends (ext : Extends H look look' objects)
    (found : entriesOf H look id = some entries) : entriesOf H look' id = some entries := by
  obtain ⟨body, stored, read⟩ := value_fetchTree.mp (entriesOf_eq_some.mp found)
  exact entriesOf_eq_some.mpr (value_fetchTree.mpr ⟨body, ext.1 _ _ stored, read⟩)

theorem TreeWhole.extends (ext : Extends H look look' objects) (whole : TreeWhole H look id) :
    TreeWhole H look' id := by
  refine Whole.mono (fun tree next resolved => ?_) whole
  obtain ⟨entries, found, rfl⟩ := map_eq_some_iff.mp resolved
  rw [dirEdges, entriesOf_extends ext found, map_some]

/-- A sound node shows sound children. -/
theorem Node.Sound.children {children : Children} (sound : node.Sound H look)
    (opened : node.children? H look = some children) : children.Sound H look := by
  cases node with
  | dir inside =>
    obtain rfl := some.inj opened
    exact sound
  | ref entry =>
    rw [children?] at opened
    split at opened
    · next isDir =>
        obtain ⟨entries, found, below⟩ := (sound.2 isDir).entries
        rw [found] at opened
        obtain rfl := some.inj opened
        refine sound_ofEntries fun pair mem => ?_
        have here := ExtTreeMap.mem_toList_iff_getElem?_eq_some.mp mem
        exact ⟨(entriesOf_fits found).2 _ _ here, below _ _ here⟩
    · cases opened

/-- A sound node shows the same children in a view that holds more. -/
theorem Node.Sound.children_extends (ext : Extends H look look' objects) (sound : node.Sound H look) :
    node.children? H look' = node.children? H look := by
  cases node with
  | dir inside => rfl
  | ref entry =>
    rw [children?, children?]
    split
    · next isDir =>
        obtain ⟨entries, found, -⟩ := (sound.2 isDir).entries
        rw [found, entriesOf_extends ext found]
    · rfl

/-- A sound overlay shows the same nodes in a view that holds more. -/
theorem Node.Sound.find_extends (ext : Extends H look look' objects) (sound : node.Sound H look)
    (path : List String) : node.find H look' path = node.find H look path := by
  induction path generalizing node with
  | nil => rfl
  | cons name path ih =>
    rw [find_cons, find_cons, sound.children_extends ext]
    cases opened : node.children? H look with
    | none => rfl
    | some children =>
      rw [bind_some, bind_some]
      cases present : children.lookup name with
      | none => rfl
      | some child => exact ih ((sound.children opened).lookup present).2

/-! ## What a build shows -/

/-- The entry a node builds to. -/
def Node.built (H : Hash) (node : Node) : TreeEntry :=
  match node.build H with
  | .ok (entry, _) => entry
  | .error _ => default

@[simp] theorem Node.built_ref (entry : TreeEntry) : (ref entry).built H = entry := by
  rw [built, build]

theorem Node.built_eq (builds : node.build H = .ok (entry, out)) : node.built H = entry := by
  rw [built, builds]

/-- The object of a finished directory decodes to its entries. -/
theorem finishDir_ok {object : Kind × Bytes} (finished : finishDir H entries = .ok (entry, object)) :
    entries.size ≤ maxDirEntries ∧ object = (.tree, encode H ⟨entries⟩) ∧
      entry = { kind := .dir, id := objectId H object.1 object.2, exec := false, size := entries.size } := by
  rw [finishDir] at finished
  split at finished
  · cases finished
  · next small =>
      obtain ⟨rfl, rfl⟩ := mk.inj (ok.inj finished)
      exact ⟨Nat.not_lt.mp small, rfl, rfl⟩

theorem Node.build_dir {children : Children} (builds : (dir children).build H = .ok (entry, out)) :
    ∃ entries below object, children.build H = .ok (entries, below) ∧
      finishDir H entries = .ok (entry, object) ∧ out = below ++ [object] := by
  obtain ⟨⟨entries, below⟩, first, rest⟩ := bind_ok_iff.mp builds
  obtain ⟨⟨entry', object⟩, second, last⟩ := bind_ok_iff.mp rest
  obtain ⟨rfl, rfl⟩ := mk.inj (ok.inj last)
  exact ⟨entries, below, object, first, second, rfl⟩

theorem Children.build_cons {name : String} {child : Node} {rest : Children}
    (builds : (cons name child rest).build H = .ok (entries, out)) :
    ∃ entry own tail below, child.build H = .ok (entry, own) ∧ rest.build H = .ok (tail, below) ∧
      entries = tail.insert name entry ∧ out = own ++ below := by
  obtain ⟨⟨entry, own⟩, first, more⟩ := bind_ok_iff.mp builds
  obtain ⟨⟨tail, below⟩, second, last⟩ := bind_ok_iff.mp more
  obtain ⟨rfl, rfl⟩ := mk.inj (ok.inj last)
  exact ⟨entry, own, tail, below, first, second, rfl, rfl⟩

/-- A name's built entry is the one its child builds to. -/
theorem Children.build_lookup (name : String) : ∀ {children : Children}
    {entries : ExtTreeMap String TreeEntry} {out : List (Kind × Bytes)},
    children.build H = .ok (entries, out) →
      entries[name]? = (children.lookup name).map (built H) ∧
        ∀ child, children.lookup name = some child → ∃ own, child.build H = .ok (child.built H, own) ∧ own ⊆ out
  | .nil, entries, out, builds => by
      obtain ⟨rfl, -⟩ := mk.inj (ok.inj builds)
      exact ⟨by simp [lookup], fun child found => nomatch found⟩
  | .cons key child rest, entries, out, builds => by
      obtain ⟨entry, own, tail, below, first, second, rfl, rfl⟩ := build_cons builds
      obtain ⟨same, inner⟩ := build_lookup name second
      rw [ExtTreeMap.getElem?_insert, lookup]
      by_cases hit : key = name
      · subst hit
        simp only [Std.ReflCmp.compare_self, if_true, map_some, some.injEq]
        refine ⟨(built_eq first).symm, ?_⟩
        rintro _ rfl
        exact ⟨own, by rw [first, built_eq first], subset_append_left own below⟩
      · rw [if_neg (by simpa using hit), if_neg hit]
        refine ⟨same, fun child found => ?_⟩
        obtain ⟨own', builds', inside⟩ := inner child found
        exact ⟨own', builds', subset_append_of_subset_right own inside⟩

/-- A built directory decodes to its entries in a view that holds it. -/
theorem entriesOf_built (frames : H.Frames) (ext : Extends H look look' objects)
    (held : (Kind.tree, encode H ⟨entries⟩) ∈ objects) (small : entries.size ≤ maxDirEntries)
    (fits : ∀ (name : String) (entry : TreeEntry), entries[name]? = some entry → EntryFits name entry) :
    entriesOf H look' (objectId H .tree (encode H ⟨entries⟩)) = some entries :=
  entriesOf_eq_some.mpr (value_fetchTree.mpr ⟨_, ext.2 _ held, decode_encode frames ⟨small, fits⟩⟩)

/-- Below a reference, everything is a reference, which builds to itself. -/
theorem find_ref_built (entry : TreeEntry) (path : List String) :
    (ref entry).find H look path =
      ((ref entry).find H look path).map fun found => .ref (found.built H) := by
  induction path generalizing entry with
  | nil => simp
  | cons name path ih =>
    rw [find_cons]
    cases opened : (ref entry).children? H look with
    | none => rfl
    | some children =>
      rw [children?] at opened
      split at opened
      · obtain ⟨entries, -, rfl⟩ := map_eq_some_iff.mp opened
        simp only [bind_some, lookup_ofEntries]
        cases entries[name]? with
        | none => rfl
        | some child => exact ih child
      · cases opened

mutual

/-- What a sound node builds to is a sound reference and every object it emits is a directory that resolves,
in any view that holds the built objects. -/
theorem Node.sound_build (frames : H.Frames) (ext : Extends H look look' objects) :
    ∀ (node : Node) {entry : TreeEntry} {out : List (Kind × Bytes)}, node.Sound H look →
      node.build H = .ok (entry, out) → out ⊆ objects →
        (ref entry).Sound H look' ∧ ∀ object ∈ out, TreeWhole H look' (objectId H object.1 object.2)
  | .ref entry, entry', out, sound, builds, _ => by
      obtain ⟨rfl, rfl⟩ := Prod.mk.inj (Except.ok.inj builds)
      exact ⟨⟨sound.1, fun isDir => (sound.2 isDir).extends ext⟩, nofun⟩
  | .dir children, entry, out, sound, builds, held => by
      obtain ⟨entries, below, object, first, finished, rfl⟩ := build_dir builds
      obtain ⟨inner, emitted⟩ := Children.sound_build frames ext children sound first
        fun o mem => held (mem_append_left _ mem)
      obtain ⟨small, rfl, rfl⟩ := finishDir_ok finished
      have whole : TreeWhole H look' (objectId H .tree (encode H ⟨entries⟩)) :=
        .intro (entriesOf_built frames ext (held (mem_append_right _ mem_cons_self)) small
          fun name entry here => (inner name entry here).1) fun name entry here => (inner name entry here).2
      refine ⟨⟨?_, fun _ => whole⟩, fun object mem => ?_⟩
      · rw [maxDirEntries] at small
        change entries.size < 2 ^ 64
        omega
      · obtain inside | last := mem_append.mp mem
        · exact emitted object inside
        · rwa [mem_singleton.mp last]

/-- What sound children build to is read back, and resolves. -/
theorem Children.sound_build (frames : H.Frames) (ext : Extends H look look' objects) :
    ∀ (children : Children) {entries : ExtTreeMap String TreeEntry} {out : List (Kind × Bytes)},
      children.Sound H look → children.build H = .ok (entries, out) → out ⊆ objects →
        (∀ (name : String) (entry : TreeEntry), entries[name]? = some entry →
          EntryFits name entry ∧ (entry.kind = .dir → TreeWhole H look' entry.id)) ∧
        ∀ object ∈ out, TreeWhole H look' (objectId H object.1 object.2)
  | .nil, entries, out, _, builds, _ => by
      obtain ⟨rfl, rfl⟩ := mk.inj (ok.inj builds)
      exact ⟨fun name entry here => by simp at here, nofun⟩
  | .cons key child rest, entries, out, sound, builds, held => by
      obtain ⟨own, objs, tail, below, first, second, rfl, rfl⟩ := build_cons builds
      obtain ⟨built, mine⟩ := Node.sound_build frames ext child sound.2.1 first
        fun o mem => held (mem_append_left _ mem)
      obtain ⟨inner, theirs⟩ := Children.sound_build frames ext rest sound.2.2 second
        fun o mem => held (mem_append_right _ mem)
      refine ⟨fun name entry here => ?_, fun object mem => (mem_append.mp mem).elim (mine object) (theirs object)⟩
      rw [ExtTreeMap.getElem?_insert] at here
      split at here
      · next hit =>
          obtain rfl := Std.LawfulEqOrd.eq_of_compare hit
          obtain rfl := some.inj here
          exact ⟨⟨sound.1, built.1⟩, built.2⟩
      · exact inner name entry here

end

/-- **What a build shows.** In a view that holds the built objects, the built entry shows at every path
the entry that the overlay's node there builds to. -/
theorem find_build (frames : H.Frames) (ext : Extends H look look' objects) (sound : node.Sound H look)
    (builds : node.build H = .ok (entry, out)) (held : out ⊆ objects) (path : List String) :
    (ref entry).find H look' path = (node.find H look path).map fun found => .ref (found.built H) := by
  induction path generalizing node entry out with
  | nil => rw [find_nil, find_nil, map_some, built_eq builds]
  | cons name path ih =>
    cases node with
    | ref same =>
      obtain ⟨rfl, -⟩ := mk.inj (ok.inj builds)
      rw [sound.find_extends ext]
      exact find_ref_built same (name :: path)
    | dir children =>
      obtain ⟨entries, below, object, first, finished, rfl⟩ := build_dir builds
      obtain ⟨inner, -⟩ := sound_build frames ext children sound first
        fun o mem => held (mem_append_left _ mem)
      obtain ⟨small, rfl, rfl⟩ := finishDir_ok finished
      have found := entriesOf_built frames ext (held (mem_append_right _ mem_cons_self)) small
        fun name entry here => (inner name entry here).1
      obtain ⟨same, builds'⟩ := build_lookup name first
      rw [find_cons, children?, if_pos rfl, found, map_some, bind_some,
        lookup_ofEntries, same, find_dir]
      cases present : children.lookup name with
      | none => rfl
      | some child =>
        obtain ⟨own, builds, inside⟩ := builds' child present
        exact ih (Children.Sound.lookup sound present).2 builds
          fun o mem => held (mem_append_left _ (inside mem))

/-- A node and what it builds to stand for the same thing. -/
theorem Node.item_built (builds : node.build H = .ok (entry, out)) :
    (ref entry).item = node.item := by
  cases node with
  | ref same =>
    obtain ⟨rfl, -⟩ := mk.inj (ok.inj builds)
    rfl
  | dir children =>
    obtain ⟨entries, below, object, -, finished, -⟩ := build_dir builds
    obtain ⟨-, -, rfl⟩ := finishDir_ok finished
    rfl

/-- What builds as a whole builds at every path. -/
theorem build_find (builds : node.build H = .ok (entry, out)) {path : List String} {found : Node}
    (here : node.find H look path = some found) : ∃ own, found.build H = .ok (found.built H, own) := by
  induction path generalizing node entry out with
  | nil =>
    obtain rfl := some.inj here
    exact ⟨out, by rw [builds, built_eq builds]⟩
  | cons name path ih =>
    cases node with
    | ref entry =>
      rw [find_ref_built] at here
      obtain ⟨other, -, rfl⟩ := map_eq_some_iff.mp here
      exact ⟨[], by simp [Node.build]⟩
    | dir children =>
      obtain ⟨entries, below, object, first, -, -⟩ := build_dir builds
      rw [find_dir] at here
      obtain ⟨child, present, here⟩ := bind_eq_some_iff.mp here
      obtain ⟨own, builds, -⟩ := (build_lookup name first).2 child present
      exact ih builds here

/-- The built entry stands for what the overlay stood for. -/
theorem denote_of_find_build (frames : H.Frames) (ext : Extends H look look' objects)
    (sound : node.Sound H look) (builds : node.build H = .ok (entry, out)) (held : out ⊆ objects)
    (path : List String) : (ref entry).denote H look' path = node.denote H look path := by
  rw [denote, denote, find_build frames ext sound builds held]
  cases here : node.find H look path with
  | none => rfl
  | some found =>
    obtain ⟨own, builds'⟩ := build_find builds here
    exact congrArg some (item_built builds')

/-- An edit opened on a directory's tree shows what the directory shows. -/
theorem denote_load (isDir : entry.kind = .dir) :
    (load (some entry.id)).denote H look = (ref entry).denote H look := by
  funext path
  cases path with
  | nil => simp [load, item, isDir]
  | cons name path =>
    rw [denote_cons, denote_cons, load, children?, children?, if_pos rfl, if_pos isDir]

/-- A finished edit shows what its overlay showed, and everything it emitted resolves. -/
theorem denote_build (frames : H.Frames) (sound : node.Sound H look) (rooted : node.item = .dir)
    {root : Option ObjectId} (built : TreeEdit.build H node = .ok (root, out))
    (ext : Extends H look look' out) : (TreeEdit.load root).denote H look' = node.denote H look ∧
      (∀ id, root = some id → TreeWhole H look' id) ∧
      ∀ object ∈ out, TreeWhole H look' (objectId H object.1 object.2) := by
  cases node with
  | ref entry =>
    obtain ⟨rfl, rfl⟩ := mk.inj (ok.inj built)
    have isDir : entry.kind = .dir := by
      by_contra leaf
      simp [item, leaf] at rooted
    refine ⟨?_, ?_, by simp⟩
    · funext path
      rw [denote_load isDir, denote, sound.find_extends ext]
      rfl
    · rintro _ ⟨⟩
      exact (sound.2 isDir).extends ext
  | dir children =>
    cases children with
    | nil =>
      obtain ⟨rfl, rfl⟩ := mk.inj (ok.inj built)
      exact ⟨denote_empty.trans denote_empty.symm, by simp, by simp⟩
    | cons name child rest =>
      obtain ⟨⟨entry, emitted⟩, builds, last⟩ := bind_ok_iff.mp built
      obtain ⟨rfl, rfl⟩ := mk.inj (ok.inj last)
      obtain ⟨whole, emitted⟩ := sound_build frames ext _ sound builds fun _ mem => mem
      have isDir : entry.kind = .dir := by
        obtain ⟨entries, below, object, -, finished, -⟩ := build_dir builds
        obtain ⟨-, -, rfl⟩ := finishDir_ok finished
        rfl
      refine ⟨?_, ?_, emitted⟩
      · funext path
        rw [denote_load isDir]
        exact denote_of_find_build frames ext sound builds (fun _ mem => mem) path
      · rintro _ ⟨⟩
        exact whole.2 isDir

end Extension

/-! ## Runs of operations -/

/-- Apply operations one after the other, whatever their verdicts. -/
def runOps (H : Hash) : List TreeOp → Node → Access (List Bool × Node)
  | [], node => pure ([], node)
  | op :: ops, node => do
      let (result, node) ← op.edit H node
      let (verdicts, node) ← runOps H ops node
      pure (result.isOk :: verdicts, node)

/-- A run over a sound overlay does not fail, keeps it sound, and follows the plain namespace. -/
theorem value_runOps {ops : List TreeOp} (fits : ∀ op ∈ ops, op.Fits H look) {node : Node}
    (sound : node.Sound H look) (rooted : node.item = .dir) :
    ∃ verdicts node', value look (runOps H ops node) = .ok (verdicts, node') ∧ node'.Sound H look ∧
      node'.item = .dir ∧
      (verdicts, node'.denote H look) = (node.denote H look).run (ops.map (TreeOp.plain H look)) := by
  induction ops generalizing node with
  | nil => exact ⟨[], node, rfl, sound, rooted, rfl⟩
  | cons op ops ih =>
    obtain ⟨result, node₁, ran, sound₁, -⟩ := TreeOp.safe (fits op mem_cons_self) node sound
    have later : ∀ op ∈ ops, op.Fits H look := fun other mem => fits other (mem_cons_of_mem _ mem)
    -- one step of the plain run, and the root is still a directory
    obtain ⟨rooted₁, follows⟩ : node₁.item = .dir ∧ ∀ rest,
        (node.denote H look).run (op.plain H look :: rest) =
          (result.isOk :: ((node₁.denote H look).run rest).1, ((node₁.denote H look).run rest).2) := by
      obtain ⟨rfl, accepted, shows⟩ | ⟨⟨e, rfl⟩, refused, shows⟩ := op.refines node result node₁ ran
      · have root := Namespace.Op.apply_root accepted (congrArg some rooted)
        rw [← shows] at root
        exact ⟨Option.some.inj root, fun rest => by rw [Namespace.run, if_pos accepted, ← shows]; rfl⟩
      · have root := congrFun shows []
        rw [denote_nil, denote_nil, rooted] at root
        exact ⟨Option.some.inj root, fun rest => by rw [Namespace.run, if_neg refused, ← shows]; rfl⟩
    obtain ⟨verdicts, node', ran', sound', rooted', same⟩ := ih later sound₁ rooted₁
    refine ⟨result.isOk :: verdicts, node', ?_, sound', rooted', ?_⟩
    · simp only [runOps, value_bind, ran, ran', Except.bind]
      rfl
    · rw [map_cons, follows, ← same]

/-! ## Over a store -/

namespace Store

/-- Every stored object stands under its own id. -/
def Addressed (H : Hash) (S : Store) : Prop :=
  ∀ id kind body, S.store[id]? = some (kind, body) → objectId H kind body = id

/-- The view that also holds freshly built objects. -/
def stage (S : Store) (objects : List (Kind × Bytes)) : Store :=
  { S with pending := S.pending ++ objects }

variable {object : Kind × Bytes}

theorem findPending_id {objects : List (Kind × Bytes)}
    (found : findPending H objects id = some object) :
    object ∈ objects ∧ objectId H object.1 object.2 = id :=
  ⟨mem_of_find?_eq_some found, by simpa using find?_some found⟩

variable {S : Store}

/-- What a view of a content-addressed store shows hashes to the id it is shown under. -/
theorem Addressed.look_id (addressed : S.Addressed H) (found : S.look H (.get id) = some object) :
    objectId H object.1 object.2 = id := by
  rw [look, or_eq_some_iff] at found
  obtain buffered | ⟨-, stored⟩ := found
  · exact (findPending_id buffered).2
  · exact addressed id object.1 object.2 stored

/-- A buffered object is shown under its id. -/
theorem look_pending (injective : Function.Injective H.sha256) (buffered : object ∈ S.pending) :
    S.look H (.get (objectId H object.1 object.2)) = some object := by
  rw [look, or_eq_some_iff]
  left
  cases found : findPending H S.pending (objectId H object.1 object.2) with
  | none => exact absurd (by simp) (find?_eq_none.mp found object buffered)
  | some other =>
    obtain ⟨kind, body⟩ := objectId_inj injective (findPending_id found).2
    exact congrArg some (Prod.ext kind body)

/-- Staging built objects extends the view by them. -/
theorem extends_stage (injective : Function.Injective H.sha256) (addressed : S.Addressed H)
    (objects : List (Kind × Bytes)) : Extends H (S.look H) ((S.stage objects).look H) objects := by
  refine ⟨fun id object found => ?_, fun object mem => look_pending injective (mem_append_right _ mem)⟩
  obtain rfl := addressed.look_id found
  rw [look, or_eq_some_iff] at found
  obtain buffered | ⟨absent, stored⟩ := found
  · exact look_pending injective (mem_append_left _ (findPending_id buffered).1)
  by_cases fresh : object ∈ objects
  · exact look_pending injective (mem_append_right _ fresh)
  rw [look, or_eq_some_iff]
  right
  refine ⟨find?_eq_none.mpr fun other mem => ?_, stored⟩
  obtain old | new := mem_append.mp mem
  · exact find?_eq_none.mp absent other old
  · intro same
    obtain ⟨kind, body⟩ := objectId_inj injective (of_decide_eq_true same)
    exact fresh (by rwa [← Prod.ext kind body])

/-- An answer that passes the budget is the view's. -/
theorem answer_look {q : Read} {charges charges' : Charges} {answer : q.Answer}
    (answered : S.answer H q charges = .ok (answer, charges')) : answer = S.look H q := by
  have passed : ∀ {α : Type} {charged : Except String Charges} {a b : α},
      (charged.map fun charged => (a, charged)) = .ok (b, charges') → b = a := by
    rintro α (_ | charged) a b ⟨⟩
    rfl
  cases q with
  | get id =>
    rw [look]
    simp only [Store.answer] at answered
    cases buffered : findPending H S.pending id with
    | some object =>
      rw [buffered] at answered
      cases answered
      rfl
    | none =>
      simp only [buffered] at answered
      split at answered
      · cases answered
        rfl
      · exact passed answered
  | has id =>
    simp only [Store.answer] at answered
    split at answered
    · cases answered
      rfl
    · exact passed answered

/-- What a budgeted run lets through is what the view answers. -/
theorem value_of_run {α : Type} {program : Access α} {a : α} (ran : S.run H program = .ok a) :
    value (S.look H) program = .ok a := by
  rw [run] at ran
  cases attempted : attempt (S.answer H) program {} with
  | error e =>
    rw [attempted] at ran
    cases ran
  | ok done =>
    rw [attempted] at ran
    cases ran
    exact value_of_attempt (fun _ _ _ _ answered => answer_look answered) attempted

/-- Only the budget fails a read. -/
theorem answer_error {q : Read} {charges : Charges} {e : String} (failed : S.answer H q charges = .error e) :
    ∃ budget, S.budget = some budget ∧ e = s!"files: object-read budget exceeded ({budget.cap})" := by
  have spent : ∀ {budget : ReadBudget} {known : Bool} {charged : Charges} {α : Type} {a : α},
      ((if known then .ok charges else budget.check charged).map fun charged => (a, charged)) = .error e →
      e = s!"files: object-read budget exceeded ({budget.cap})" := by
    intro budget known charged α a failed
    unfold ReadBudget.check at failed
    split at failed
    · cases failed
    · split at failed <;> cases failed
      rfl
  cases q with
  | get id =>
    simp only [answer] at failed
    split at failed
    · cases failed
    split at failed
    · cases failed
    · exact ⟨_, ‹_›, spent failed⟩
  | has id =>
    simp only [answer] at failed
    split at failed
    · cases failed
    · exact ⟨_, ‹_›, spent failed⟩

/-- What the view answers is what a run gives, unless it goes over its budget. -/
theorem run_cases {α : Type} {program : Access α} {a : α} (valued : value (S.look H) program = .ok a) :
    S.run H program = .ok a ∨ ∃ budget, S.budget = some budget ∧
      S.run H program = .error s!"files: object-read budget exceeded ({budget.cap})" := by
  obtain ⟨charges, ran⟩ | ⟨q, charges, e, failed, ran⟩ :=
    attempt_cases (fun _ _ _ _ answered => answer_look answered) valued {}
  · exact .inl (by rw [run, ran]; rfl)
  · obtain ⟨budget, limited, rfl⟩ := answer_error failed
    exact .inr ⟨budget, limited, by rw [run, ran]; rfl⟩

/-- Without a budget a program gives what the view answers. -/
theorem run_free {α : Type} (free : S.budget = none) (program : Access α) :
    S.run H program = value (S.look H) program := by
  have answers : ∀ q charges, S.answer H q charges = .ok (S.look H q, charges) := by
    intro q charges
    cases q with
    | get id =>
      rw [answer, look, free]
      cases findPending H S.pending id <;> rfl
    | has id => rw [answer, look, free]
  rw [run, attempt_of_value answers]
  cases value (S.look H) program <;> rfl

end Store

/-- An empty store. -/
def emptyStore : Store := ⟨∅, [], none⟩

/-- An empty file's entry. -/
def emptyFile : TreeEntry := { kind := .file, id := [], exec := false, size := 0 }

/-- A directory with one entry, and the entry that stands for it. -/
def soleDir (name : String) (entry : TreeEntry) : Bytes :=
  TreeObj.encode plainHash ⟨(∅ : ExtTreeMap String TreeEntry).insert name entry⟩

def soleEntry (name : String) (entry : TreeEntry) : TreeEntry :=
  { kind := .dir, id := objectId plainHash .tree (soleDir name entry), exec := false, size := 1 }

/-- A committed root with the directory `notes`, which holds the file `today`, under a budget of two reads. -/
def notesRoot : ObjectId := (soleEntry "notes" (soleEntry "today" emptyFile)).id

def notesStore : Store where
  store := ((∅ : Odb).insert (soleEntry "today" emptyFile).id (.tree, soleDir "today" emptyFile)).insert notesRoot
    (.tree, soleDir "notes" (soleEntry "today" emptyFile))
  pending := []
  budget := some ⟨∅, 2⟩

/-- A write, a move of its parent that is refused for want of a target parent, one that is not, and a removal. -/
def someOps : List TreeOp :=
  [.put ["notes", "more"] emptyFile, .mv ["notes"] ["old", "notes"], .mv ["notes"] ["old"], .rm ["old", "today"]]

theorem TreeWhole.sole {name : String} {entry : TreeEntry} {look : (q : Read) → q.Answer}
    (held : look (.get (soleEntry name entry).id) = some (.tree, soleDir name entry)) (fits : EntryFits name entry)
    (below : entry.kind = .dir → TreeWhole plainHash look entry.id) :
    TreeWhole plainHash look (soleEntry name entry).id := by
  have only : ∀ (other : String) (found : TreeEntry),
      ((∅ : ExtTreeMap String TreeEntry).insert name entry)[other]? = some found → name = other ∧ entry = found := by
    intro other found here
    rw [ExtTreeMap.getElem?_insert] at here
    split at here
    · exact ⟨Std.LawfulEqOrd.eq_of_compare ‹_›, some.inj here⟩
    · simp at here
  refine .intro (entriesOf_eq_some.mpr (value_fetchTree.mpr ⟨_, held, decode_encode plainHash_frames ⟨?_, ?_⟩⟩)) ?_
  · exact ExtTreeMap.size_insert_le.trans (by decide)
  · intro other found here
    obtain ⟨rfl, rfl⟩ := only other found here
    exact fits
  · intro other found here isDir
    obtain ⟨rfl, rfl⟩ := only other found here
    exact below isDir

theorem notesRoot_whole : TreeWhole plainHash (notesStore.look plainHash) notesRoot := by
  refine .sole (by decide +kernel) ⟨by decide +kernel, by decide⟩ fun _ => ?_
  exact .sole (by decide +kernel) ⟨by decide +kernel, by decide⟩ nofun

/-- A name one byte over the tree codec's cap. -/
def longName : String := String.ofList (List.replicate 256 'n')

/-- A directory whose object is in no store. -/
def absentDir : TreeEntry := { emptyFile with kind := .dir }

/-- A put of the entry under the name is accepted and built, and the root it emits does not resolve. -/
def Dangles (name : String) (entry : TreeEntry) : Prop :=
  ∃ node root out,
    emptyStore.run plainHash (TreeEdit.put plainHash [name] entry (TreeEdit.load none)) = .ok (.ok (), node) ∧
      TreeEdit.build plainHash node = .ok (some root, out) ∧
      ¬ TreeWhole plainHash ((emptyStore.stage out).look plainHash) root

end Ducktape.Duckfs
