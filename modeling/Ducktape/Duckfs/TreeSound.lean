import Ducktape.Duckfs.TreeRefines

/-! # Sound overlays

An overlay is sound when every directory it refers to resolves all the way down and every name and size
in it is one the tree codec reads back. Over a sound overlay no read fails (`value_navigate_sound`), and
the operations keep it sound (`TreeOp.safe`). -/

namespace Ducktape.Duckfs

open Lib Lib.Attempt Std List TreeEdit Children

/-! ## Whole trees -/

/-- The subdirectories of a resolvable directory. -/
def dirEdges (H : Hash) (look : (q : Read) → q.Answer) (id : ObjectId) : Option (List ObjectId) :=
  (entriesOf H look id).map fun entries =>
    (entries.toList.filter fun pair => pair.2.kind = .dir).map fun pair => pair.2.id

/-- Every directory below the tree resolves. -/
def TreeWhole (H : Hash) (look : (q : Read) → q.Answer) (id : ObjectId) : Prop := Whole (dirEdges H look) id

mutual

/-- Every reference of the overlay resolves, and its names and sizes are read back by the codec. -/
def Node.Sound (H : Hash) (look : (q : Read) → q.Answer) : Node → Prop
  | .ref entry => entry.size < 2 ^ 64 ∧ (entry.kind = .dir → TreeWhole H look entry.id)
  | .dir children => children.Sound H look

/-- Every child is sound under a name the codec reads back. -/
def Children.Sound (H : Hash) (look : (q : Read) → q.Answer) : Children → Prop
  | .nil => True
  | .cons name node rest => name.utf8ByteSize ≤ maxNameBytes ∧ node.Sound H look ∧ rest.Sound H look

end

variable {H : Hash} {look : (q : Read) → q.Answer}

variable {id : ObjectId}

/-- A whole tree resolves, to whole subtrees. -/
theorem TreeWhole.entries (whole : TreeWhole H look id) :
    ∃ entries, entriesOf H look id = some entries ∧
      ∀ (name : String) (entry : TreeEntry), entries[name]? = some entry → entry.kind = .dir →
        TreeWhole H look entry.id := by
  obtain ⟨next, resolved, below⟩ := whole.next
  obtain ⟨entries, found, rfl⟩ := Option.map_eq_some_iff.mp resolved
  refine ⟨entries, found, fun name entry here isDir => below _ ?_⟩
  have mem := ExtTreeMap.mem_toList_iff_getElem?_eq_some.mpr here
  exact mem_map.mpr ⟨(name, entry), mem_filter.mpr ⟨mem, by simpa using isDir⟩, rfl⟩

variable {entries : ExtTreeMap String TreeEntry}

/-- A directory that resolves to whole subtrees is whole. -/
theorem TreeWhole.intro (found : entriesOf H look id = some entries)
    (below : ∀ (name : String) (entry : TreeEntry), entries[name]? = some entry → entry.kind = .dir →
      TreeWhole H look entry.id) : TreeWhole H look id := by
  refine Whole.intro (congrArg (Option.map _) found) fun child listed => ?_
  obtain ⟨⟨name, entry⟩, kept, rfl⟩ := mem_map.mp listed
  obtain ⟨mem, isDir⟩ := mem_filter.mp kept
  exact below name entry (ExtTreeMap.mem_toList_iff_getElem?_eq_some.mp mem) (by simpa using isDir)

/-- What a tree object decodes to is within the codec's caps. -/
theorem entriesOf_fits (found : entriesOf H look id = some entries) : TreeObj.Fits ⟨entries⟩ := by
  obtain ⟨body, -, read⟩ := value_fetchTree.mp (entriesOf_eq_some.mp found)
  exact TreeObj.fits_of_decode read

/-! ## Sound children -/

variable {name : String} {node : Node}

namespace Children

theorem Sound.lookup : ∀ {children : Children}, children.Sound H look →
    children.lookup name = some node → name.utf8ByteSize ≤ maxNameBytes ∧ node.Sound H look
  | .cons key child rest, sound, found => by
      rw [Children.lookup] at found
      split at found
      · next hit =>
          subst hit
          obtain rfl := Option.some.inj found
          exact ⟨sound.1, sound.2.1⟩
      · exact Sound.lookup sound.2.2 found

theorem Sound.insert (short : name.utf8ByteSize ≤ maxNameBytes) (new : node.Sound H look) :
    ∀ {children : Children}, children.Sound H look →
      (children.insert name node).Sound H look
  | .nil, _ => ⟨short, new, trivial⟩
  | .cons key child rest, sound => by
      rw [Children.insert]
      split
      · exact ⟨short, new, sound⟩
      · exact ⟨short, new, sound.2.2⟩
      · exact ⟨sound.1, sound.2.1, Sound.insert short new sound.2.2⟩

theorem Sound.erase : ∀ {children : Children}, children.Sound H look →
    (children.erase name).Sound H look
  | .nil, _ => trivial
  | .cons key child rest, sound => by
      rw [Children.erase]
      split
      · exact Sound.erase sound.2.2
      · exact ⟨sound.1, sound.2.1, Sound.erase sound.2.2⟩

theorem sound_ofEntries : ∀ {pairs : List (String × TreeEntry)},
    (∀ pair ∈ pairs, EntryFits pair.1 pair.2 ∧ (pair.2.kind = .dir → TreeWhole H look pair.2.id)) →
      (ofEntries pairs).Sound H look
  | [], _ => trivial
  | (name, entry) :: pairs, fits => by
      obtain ⟨⟨short, word⟩, whole⟩ := fits (name, entry) mem_cons_self
      exact ⟨short, ⟨word, whole⟩, sound_ofEntries fun pair mem => fits pair (mem_cons_of_mem _ mem)⟩

end Children

/-- No read of a sound node fails, and what it shows is sound. -/
theorem value_materialize_sound (sound : node.Sound H look) :
    (∃ e, value look (materialize H node) = .ok (.error e)) ∨
      ∃ children, value look (materialize H node) = .ok (.ok children) ∧ children.Sound H look := by
  cases node with
  | dir children => exact .inr ⟨children, rfl, sound⟩
  | ref entry =>
    rw [materialize]
    split
    · exact .inl ⟨_, rfl⟩
    next isDir =>
      obtain ⟨entries, found, below⟩ := (sound.2 (not_not.mp isDir)).entries
      refine .inr ⟨.ofEntries entries.toList, ?_, sound_ofEntries fun pair mem => ?_⟩
      · simp [loadChildren, entriesOf_eq_some.mp found, Except.bind]
      · have here := ExtTreeMap.mem_toList_iff_getElem?_eq_some.mp mem
        exact ⟨(entriesOf_fits found).2 _ _ here, below _ _ here⟩

/-! ## Operations on sound overlays -/

/-- Every name is one the codec reads back. -/
def ShortNames (segs : List String) : Prop := ∀ name ∈ segs, name.utf8ByteSize ≤ maxNameBytes

variable {dirs : List String}

/-- **A navigation over a sound overlay does not fail and keeps it sound**, provided its action does. -/
theorem value_navigate_sound {α : Type} {create : Bool} {f : Children → Except String α × Children}
    {Q : α → Prop} (keeps : ∀ children, children.Sound H look →
      (f children).2.Sound H look ∧ ∀ a, (f children).1 = .ok a → Q a)
    (short : create = true → ShortNames dirs) (sound : node.Sound H look) :
    ∃ result node', value look (navigate H create f dirs node) = .ok (result, node') ∧
      node'.Sound H look ∧ ∀ a, result = .ok a → Q a := by
  induction dirs generalizing node with
  | nil =>
    obtain ⟨e, refused⟩ | ⟨children, opened, inside⟩ := value_materialize_sound sound
    · exact ⟨.error e, node, by simp [navigate, refused, Except.bind], sound, by simp⟩
    · exact ⟨(f children).1, .dir (f children).2, by simp [navigate, opened, Except.bind],
        (keeps _ inside).1, (keeps _ inside).2⟩
  | cons seg dirs ih =>
    have rest : create = true → ShortNames dirs :=
      fun creates name mem => short creates name (List.mem_cons_of_mem _ mem)
    obtain ⟨e, refused⟩ | ⟨children, opened, inside⟩ := value_materialize_sound sound
    · exact ⟨.error e, node, by simp [navigate, refused, Except.bind], sound, by simp⟩
    cases present : children.lookup seg with
    | some child =>
      obtain ⟨named, below⟩ := inside.lookup present
      obtain ⟨result, child', ran, sound', holds⟩ := ih rest below
      exact ⟨result, .dir (children.insert seg child'),
        by simp [navigate, opened, present, ran, Except.bind], inside.insert named sound', holds⟩
    | none =>
      by_cases creates : create = true
      · have empty : (Node.dir nil).Sound H look := trivial
        obtain ⟨result, child', ran, sound', holds⟩ := ih rest empty
        have named := short creates seg List.mem_cons_self
        exact ⟨result, .dir (children.insert seg child'),
          by simp [navigate, opened, present, creates ▸ ran, creates, Except.bind],
          inside.insert named sound', holds⟩
      · refine ⟨.error "files: a directory on the path does not exist", .dir children, ?_, inside,
          by simp⟩
        simp [navigate, opened, present, creates, Except.bind]

/-- One call of a tree edit. -/
inductive TreeOp
  | put (segs : List String) (entry : TreeEntry)
  | mkdir (segs : List String)
  | rm (segs : List String)
  | mv (source target : List String)

namespace TreeOp

/-- The edit a call is. -/
def edit (H : Hash) : TreeOp → Edit Unit
  | put segs entry => TreeEdit.put H segs entry
  | mkdir segs => TreeEdit.mkdir H segs
  | rm segs => TreeEdit.rm H segs
  | mv source target => TreeEdit.mv H source target

/-- The plain operation a call stands for; a put places what its entry shows. -/
def plain (H : Hash) (look : (q : Read) → q.Answer) : TreeOp → Namespace.Op String TreeEntry
  | put segs entry => .put segs ((Node.ref entry).denote H look)
  | mkdir segs => .mkdir segs
  | rm segs => .rm segs
  | mv source target => .mv source target

/-- The names a call creates are within the codec's cap, and a put entry has a word-sized size and, if it
is a directory, resolves. -/
def Fits (H : Hash) (look : (q : Read) → q.Answer) : TreeOp → Prop
  | put segs entry => ShortNames segs ∧ (Node.ref entry).Sound H look
  | mkdir segs => ShortNames segs
  | rm _ => True
  | mv _ target => ShortNames target

theorem refines (op : TreeOp) : Refines H look (op.edit H) (op.plain H look) := by
  cases op with
  | put segs entry => exact put_refines segs entry
  | mkdir segs => exact mkdir_refines segs
  | rm segs => exact rm_refines segs
  | mv source target => exact mv_refines source target

end TreeOp

theorem ShortNames.concat (short : ShortNames (dirs ++ [name])) :
    ShortNames dirs ∧ name.utf8ByteSize ≤ maxNameBytes :=
  ⟨fun seg mem => short seg (mem_append_left _ mem), short name (by simp)⟩

/-- An edit of a sound overlay does not fail, keeps it sound, and gives a `Q` if it is accepted. -/
def Safe {α : Type} (H : Hash) (look : (q : Read) → q.Answer) (Q : α → Prop) (edit : Edit α) : Prop :=
  ∀ node, node.Sound H look → ∃ result node', value look (edit node) = .ok (result, node') ∧
    node'.Sound H look ∧ ∀ a, result = .ok a → Q a

namespace Safe

variable {α β : Type} {Q : α → Prop} {R : β → Prop}

theorem throw (e : String) : Safe H look Q (throw e) :=
  fun node sound => ⟨.error e, node, rfl, sound, fun _ same => nomatch same⟩

theorem bind {edit : Edit α} {k : α → Edit β} (first : Safe H look Q edit)
    (second : ∀ a, Q a → Safe H look R (k a)) : Safe H look R (edit >>= k) := by
  intro node sound
  obtain ⟨result, node₁, ran, sound₁, holds⟩ := first node sound
  rw [value_edit_bind, ran]
  cases result with
  | error e => exact ⟨.error e, node₁, rfl, sound₁, fun _ same => nomatch same⟩
  | ok a => exact second a (holds a rfl) node₁ sound₁

/-- A navigation whose action keeps children sound. -/
theorem descend {create : Bool} {f : Children → Except String α × Children}
    (short : create = true → ShortNames dirs)
    (keeps : ∀ children, children.Sound H look → (f children).2.Sound H look)
    (gives : ∀ children, children.Sound H look → ∀ a, (f children).1 = .ok a → Q a) :
    Safe H look Q (descend H create dirs f) :=
  fun _ sound => value_navigate_sound (fun children inside => ⟨keeps children inside, gives children inside⟩)
    short sound

end Safe

variable {segs : List String}

theorem put_safe {entry : TreeEntry} (short : ShortNames segs)
    (whole : (Node.ref entry).Sound H look) :
    Safe H look (fun _ => True) (put H segs entry) := by
  obtain rfl | ⟨dirs, name, rfl⟩ := eq_nil_or_concat' segs
  · exact .throw _
  · simp only [TreeEdit.put, getLast?_concat, dropLast_concat]
    exact .descend (fun _ => short.concat.1) (fun children inside => inside.insert short.concat.2 whole)
      fun _ _ _ _ => trivial

theorem mkdir_safe (short : ShortNames segs) :
    Safe H look (fun _ => True) (mkdir H segs) := by
  obtain rfl | ⟨dirs, name, rfl⟩ := eq_nil_or_concat' segs
  · exact .throw _
  simp only [mkdir, getLast?_concat, dropLast_concat]
  refine .descend (fun _ => short.concat.1) (fun children inside => ?_) fun _ _ _ _ => trivial
  have empty : (Node.dir nil).Sound H look := trivial
  split
  · exact inside
  · exact inside.insert short.concat.2 empty

theorem rm_safe (segs : List String) : Safe H look (fun _ => True) (rm H segs) := by
  obtain rfl | ⟨dirs, name, rfl⟩ := eq_nil_or_concat' segs
  · exact .throw _
  · simp only [rm, getLast?_concat]
    refine .descend (absurd · Bool.false_ne_true) (fun children inside => ?_) fun _ _ _ _ => trivial
    split <;> exact inside.erase

theorem takeChild_safe (dirs : List String) (name : String) :
    Safe H look (fun moved => moved.Sound H look) (descend H false dirs (takeChild name)) := by
  refine .descend (absurd · Bool.false_ne_true) (fun children inside => ?_) fun children inside moved same => ?_
  · rw [takeChild]
    split <;> exact inside.erase
  · rw [takeChild] at same
    split at same
    · next found =>
        obtain rfl := Except.ok.inj same
        exact (inside.lookup found).2
    · cases same

theorem mv_safe (source : List String) {target : List String} (short : ShortNames target) :
    Safe H look (fun _ => True) (mv H source target) := by
  obtain rfl | ⟨sourceDirs, sourceName, rfl⟩ := eq_nil_or_concat' source
  · exact .throw _
  obtain rfl | ⟨targetDirs, targetName, rfl⟩ := eq_nil_or_concat' target
  · rw [mv, getLast?_concat]
    exact .throw _
  simp only [mv, getLast?_concat]
  have check : ∀ (dirs : List String) (f : Children → Except String Unit),
      Safe H look (fun _ => True) (descend H false dirs fun parent => (f parent, parent)) :=
    fun dirs f => .descend (absurd · Bool.false_ne_true) (fun _ inside => inside) fun _ _ _ _ => trivial
  split
  · exact .throw _
  · refine (check _ _).bind fun _ _ => (check _ _).bind fun _ _ => (takeChild_safe _ _).bind fun moved whole => ?_
    exact .descend (absurd · Bool.false_ne_true) (fun children inside => inside.insert short.concat.2 whole)
      fun _ _ _ _ => trivial

theorem TreeOp.safe {op : TreeOp} (fits : op.Fits H look) : Safe H look (fun _ => True) (op.edit H) := by
  cases op with
  | put segs entry => exact put_safe fits.1 fits.2
  | mkdir segs => exact mkdir_safe fits
  | rm segs => exact rm_safe segs
  | mv source target => exact mv_safe source fits

end Ducktape.Duckfs
