import Mathlib.Data.Set.Insert
import Ducktape.Modules.RegistryRuns

/-! # The lane table of the code registry

`LanesSound` is what a lane table satisfies, `lanesAfter` what an accepted operation does to it. The
roster and the table are, as sets, edited per module (`Edit`), and edits of different modules commute, so
withdrawing an admission undoes it whatever the other modules did since.

`registry_consistent`: in every state of every block the roster, the entries and the lane table agree, and
a cancelled admission leaves the roster and the table of a registry that never had it. -/

namespace Ducktape.Modules

open Lib Handler List Tables Set ModuleEntry

/-! ## Tables -/

instance : IsStrictTotalOrder UInt8 (· < ·) where
  irrefl := UInt8.lt_irrefl
  trans _ _ _ := UInt8.lt_trans
  trichotomous _ _ above below := UInt8.le_antisymm (UInt8.not_lt.mp below) (UInt8.not_lt.mp above)

/-- The record of a declaration. -/
def laneOf (moduleId : String) (decl : LaneDecl) : LaneRecord := ⟨decl.id, moduleId, decl.name, decl.stream⟩

/-- An id a module may declare. -/
def Declarable (id : UInt8) : Prop := 1 ≤ id ∧ id ≤ maxLaneId ∧ id ∉ reservedLaneIds

/-- Ids ascend and are declarable, and a module has no two lanes of one name. -/
structure LanesSound (table : List LaneRecord) : Prop where
  ascending : (table.map (·.id)).Pairwise (· < ·)
  declarable : ∀ lane ∈ table, Declarable lane.id
  named : ∀ lane ∈ table, ∀ other ∈ table, lane.moduleId = other.moduleId → lane.name = other.name → lane = other

variable {table : List LaneRecord}

theorem LanesSound.filter (sound : LanesSound table) (keep : LaneRecord → Bool) :
    LanesSound (table.filter keep) where
  ascending := sound.ascending.sublist (filter_sublist.map _)
  declarable lane mem := sound.declarable lane (mem_filter.mp mem).1
  named lane mem other mem' := sound.named lane (mem_filter.mp mem).1 other (mem_filter.mp mem').1

variable {table' : List LaneRecord}

/-- A sound table is its lanes. -/
theorem LanesSound.eq (sound : LanesSound table) (sound' : LanesSound table')
    (same : ∀ lane, lane ∈ table ↔ lane ∈ table') : table = table' := by
  exact Pairwise.eq_of_mem_iff (pairwise_map.mp sound.ascending) (pairwise_map.mp sound'.ascending) same

theorem admitLane_ok {moduleId : String} {decl : LaneDecl} (sound : LanesSound table)
    (admitted : admitLane table moduleId decl = .ok table') :
    LanesSound table' ∧ ∀ lane, lane ∈ table' ↔ lane = laneOf moduleId decl ∨ lane ∈ table := by
  unfold admitLane at admitted
  split at admitted
  · cases admitted
  rename_i free
  split at admitted
  · cases admitted
  rename_i within
  split at admitted
  · cases admitted
  split at admitted
  · cases admitted
  rename_i fresh
  split at admitted
  · cases admitted
  rename_i position missing
  cases admitted
  have ids : (table.insertIdx position (laneOf moduleId decl)).map (·.id) =
      (table.map (·.id)).insertIdx position decl.id := map_insertIdx ..
  obtain ⟨before, after, split, rfl, -⟩ := search_error sound.ascending missing
  have mem : ∀ lane, lane ∈ table.insertIdx before.length (laneOf moduleId decl) ↔
      lane = laneOf moduleId decl ∨ lane ∈ table := by
    have inside : before.length ≤ table.length := by
      have lengths := congrArg length split
      rw [length_map, length_append] at lengths
      omega
    exact fun lane => mem_insertIdx inside
  have unnamed : ∀ lane ∈ table, lane.moduleId = moduleId → lane.name ≠ decl.name := by
    intro lane mem owned named
    exact fresh (any_eq_true.mpr ⟨lane, mem, by simp [owned, named]⟩)
  refine ⟨⟨?_, fun lane listed => ?_, fun lane listed other listed' owner name => ?_⟩, mem⟩
  · exact ids ▸ sorted_insertIdx_search sound.ascending missing
  · rcases (mem lane).mp listed with rfl | listed
    · have bounds := not_or.mp within
      exact ⟨UInt8.le_iff_toNat_le.mpr (Nat.one_le_iff_ne_zero.mpr fun zero => bounds.1 (UInt8.toNat.inj zero)),
        UInt8.not_lt.mp bounds.2, free⟩
    · exact sound.declarable lane listed
  · rcases (mem lane).mp listed with rfl | listed <;> rcases (mem other).mp listed' with rfl | listed'
    · rfl
    · exact absurd name.symm (unnamed other listed' owner.symm)
    · exact absurd name (unnamed lane listed owner)
    · exact sound.named lane listed other listed' owner name

theorem admitLanes_ok {moduleId : String} {decls : List LaneDecl} (sound : LanesSound table)
    (admitted : admitLanes table moduleId decls = .ok table') :
    LanesSound table' ∧ ∀ lane, lane ∈ table' ↔ lane ∈ decls.map (laneOf moduleId) ∨ lane ∈ table := by
  induction decls generalizing table with
  | nil =>
    cases admitted
    exact ⟨sound, fun lane => by simp⟩
  | cons decl decls ih =>
    simp only [admitLanes, foldlM_cons] at admitted
    cases first : admitLane table moduleId decl with
    | error => simp [first, bind, Except.bind] at admitted
    | ok grown =>
      simp only [first] at admitted
      obtain ⟨kept, one⟩ := admitLane_ok sound first
      obtain ⟨sound, all⟩ := ih kept admitted
      refine ⟨sound, fun lane => ?_⟩
      rw [all, one, map_cons, mem_cons]
      tauto

/-! ## The tables as sets -/

/-- The listed modules and the declared lanes. -/
@[ext] structure Tables where
  modules : Set String
  lanes : Set LaneRecord

def Tables.of (s : Store) : Tables := ⟨{id | id ∈ roster s}, {lane | lane ∈ laneTable s}⟩

/-- What an operation does to the tables. -/
inductive Edit
  | declare (moduleId : String) (decls : List LaneDecl)
  | withdraw (moduleId : String)

/-- The module the edit is of. -/
def Edit.moduleId : Edit → String
  | .declare moduleId _ | .withdraw moduleId => moduleId

def Tables.edit (tables : Tables) : Edit → Tables
  | .declare moduleId decls =>
    ⟨insert moduleId tables.modules, {lane | lane ∈ decls.map (laneOf moduleId)} ∪ tables.lanes⟩
  | .withdraw moduleId => ⟨tables.modules \ {moduleId}, {lane ∈ tables.lanes | lane.moduleId ≠ moduleId}⟩

/-- The edits of an operation: admissions and registrations declare, a cancelled admission withdraws. -/
def edits (s : Store) : ModulesMsg → List Edit
  | .registerModule moduleId _ _ lanes | .scheduleRegister _ moduleId _ _ _ lanes => [.declare moduleId lanes]
  | .cancelSwap _ moduleId => if codeless s moduleId then [.withdraw moduleId] else []
  | .scheduleSwap .. | .swapReady .. | .advance => []

/-- Every lane is of a listed module. -/
def Tables.Owned (tables : Tables) : Prop := ∀ lane ∈ tables.lanes, lane.moduleId ∈ tables.modules

variable {tables : Tables}

theorem Tables.Owned.edit (owned : tables.Owned) (edit : Edit) : (tables.edit edit).Owned := by
  intro lane mem
  cases edit with
  | declare moduleId decls =>
    rcases mem with declared | mem
    · obtain ⟨decl, -, rfl⟩ := mem_map.mp declared
      exact .inl rfl
    · exact .inr (owned lane mem)
  | withdraw moduleId => exact ⟨owned lane mem.1, mem.2⟩

theorem Tables.Owned.edits (owned : tables.Owned) (edits : List Edit) :
    (edits.foldl Tables.edit tables).Owned := by
  induction edits generalizing tables with
  | nil => exact owned
  | cons edit edits ih => exact ih (owned.edit edit)

/-- The tables without a module. -/
theorem Tables.edit_withdraw_comm (tables : Tables) {moduleId : String} {edit : Edit} (apart : edit.moduleId ≠ moduleId) :
    (tables.edit edit).edit (.withdraw moduleId) = (tables.edit (.withdraw moduleId)).edit edit := by
  cases edit with
  | declare other decls =>
    have foreign : ∀ lane ∈ decls.map (laneOf other), lane.moduleId ≠ moduleId := by
      intro lane mem
      obtain ⟨decl, -, rfl⟩ := List.mem_map.mp mem
      exact apart
    refine Tables.ext (insert_sdiff_of_notMem _ apart) (ext fun lane => ?_)
    constructor
    · rintro ⟨declared | mem, kept⟩
      · exact .inl declared
      · exact .inr ⟨mem, kept⟩
    · rintro (declared | mem)
      · exact ⟨.inl declared, foreign lane declared⟩
      · exact ⟨.inr mem.1, mem.2⟩
  | withdraw other =>
    exact Tables.ext (Set.sdiff_sdiff_comm) (Set.ext fun lane => and_right_comm)

/-- A later withdrawal of a module leaves the other modules' edits of tables that never had it. -/
theorem Tables.withdraw_edits {moduleId : String} {edits : List Edit}
    (apart : ∀ edit ∈ edits, edit.moduleId ≠ moduleId) :
    (edits.foldl edit tables).edit (.withdraw moduleId) =
      edits.foldl edit (tables.edit (.withdraw moduleId)) := by
  induction edits generalizing tables with
  | nil => rfl
  | cons edit edits ih =>
    obtain ⟨first, apart⟩ := forall_mem_cons.mp apart
    rw [foldl_cons, ih apart, edit_withdraw_comm tables first, foldl_cons]

/-- Withdrawing what was just declared. -/
theorem Tables.declare_withdraw (owned : tables.Owned) {moduleId : String}
    (absent : moduleId ∉ tables.modules) (decls : List LaneDecl) :
    (tables.edit (.declare moduleId decls)).edit (.withdraw moduleId) = tables := by
  refine Tables.ext (insert_sdiff_self_of_notMem absent) (ext fun lane => ?_)
  constructor
  · rintro ⟨declared | mem, kept⟩
    · obtain ⟨decl, -, rfl⟩ := List.mem_map.mp declared
      exact absurd rfl kept
    · exact mem
  · intro mem
    exact ⟨.inr mem, fun same => absent (same ▸ owned lane mem)⟩

/-! ## Consistency -/

/-- The roster, the entries and the lane table agree. -/
structure Consistent (s : Store) : Prop where
  /-- The roster is sorted and lists exactly the modules that have a record. -/
  modules : Sound s
  lanes : LanesSound (laneTable s)
  owned : (Tables.of s).Owned
  /-- A module without any activation has a pending admission. -/
  admitted : ∀ moduleId given, entry s moduleId = some given → given.history = [] → given.pending.isSome

/-- Consistent registries of the same tables have the same roster and the same lane table. -/
theorem Consistent.eq {s s' : Store} (here : Consistent s) (there : Consistent s')
    (same : Tables.of s = Tables.of s') : roster s = roster s' ∧ laneTable s = laneTable s' :=
  ⟨here.modules.sorted.eq_of_mem_iff there.modules.sorted fun id => Set.ext_iff.mp (congrArg Tables.modules same) id,
    here.lanes.eq there.lanes fun lane => Set.ext_iff.mp (congrArg Tables.lanes same) lane⟩

section operations

variable {M : Modules} {ask : (q : Ask) → Answer q} {env : Env} {scratch after : Scratch Key Value}
  {msg : ModulesMsg}

theorem lanes_lanesAfter {s : Store} {table : List LaneRecord} (sound : LanesSound (laneTable s))
    (edited : lanesAfter s msg = .ok table) :
    LanesSound table ∧ ∀ lane, lane ∈ table ↔ lane ∈ ((edits s msg).foldl Tables.edit (Tables.of s)).lanes := by
  cases msg with
  | registerModule | scheduleRegister => exact admitLanes_ok sound edited
  | scheduleSwap | swapReady | advance =>
    cases edited
    exact ⟨sound, fun _ => Iff.rfl⟩
  | cancelSwap name moduleId =>
    rw [lanesAfter, Except.ok.injEq] at edited
    rw [← edited, edits]
    split
    · exact ⟨sound.filter _, fun lane => by simp [Tables.edit, Tables.of]⟩
    · exact ⟨sound, fun _ => Iff.rfl⟩

/-- Which modules have an entry after a move. -/
theorem listed_moved {s s' : Store} {height : Nat} (moved : Moved height msg s s') (sound : Sound s)
    (sound' : Sound s')
    (withdrawn : ∀ name moduleId, msg = .cancelSwap name moduleId → codeless s moduleId = true →
      entry s' moduleId = none) :
    ∀ id, id ∈ roster s' ↔ id ∈ ((edits s msg).foldl Tables.edit (Tables.of s)).modules := by
  obtain ⟨moduleId, move, frame⟩ := moved
  have others : ∀ id, id ≠ moduleId → (id ∈ roster s' ↔ id ∈ roster s) := fun id apart => by
    rw [sound'.listed, sound.listed, frame id apart]
  have itself := sound'.listed moduleId
  have before := sound.listed moduleId
  generalize was : entry s moduleId = old at move before
  generalize now : entry s' moduleId = new at move itself
  intro id
  by_cases same : id = moduleId
  · subst same
    cases move with
    | register | announce => simpa [edits, Tables.edit] using itself
    | schedule | signal => simpa [edits, Tables.of, before] using itself
    | cancel _ name given swap held =>
      have runs : codeless s id = false := by
        by_contra empty
        rw [withdrawn name id rfl (by simpa using empty)] at now
        cases now
      simpa [edits, runs, Tables.of, before] using itself
    | withdraw _ _ given _ _ _ never =>
      have empty : codeless s id = true := by simp [codeless, was, activeCodeHash, never]
      simpa [edits, empty, Tables.edit] using itself
  · rw [others id same]
    cases move with
    | register | announce => simp [edits, Tables.edit, Tables.of, same]
    | schedule | signal => rfl
    | cancel | withdraw =>
      rw [edits]
      split
      · simp [Tables.edit, Tables.of, same]
      · rfl

/-- **An accepted operation edits the tables and keeps them consistent.** -/
theorem consistent_handleMsg (ends : Ends ask (M.handleMsg env msg) scratch () after)
    (committed : Sound scratch.staged.store) (before : Consistent scratch.staged.get) :
    Tables.of after.staged.get = (edits scratch.staged.get msg).foldl Tables.edit (Tables.of scratch.staged.get) ∧
      Consistent after.staged.get := by
  suffices rest : lanesAfter scratch.staged.get msg = .ok (laneTable after.staged.get) ∧ Sound after.staged.get ∧ (∀ id, id ∈ roster after.staged.get ↔
      id ∈ ((edits scratch.staged.get msg).foldl Tables.edit (Tables.of scratch.staged.get)).modules) ∧
      ∀ moduleId given, entry after.staged.get moduleId = some given → given.history = [] → given.pending.isSome by
    obtain ⟨edited, sound, listed, admitted⟩ := rest
    obtain ⟨lanes, declared⟩ := lanes_lanesAfter before.lanes edited
    have tables : Tables.of after.staged.get =
        (edits scratch.staged.get msg).foldl Tables.edit (Tables.of scratch.staged.get) :=
      Tables.ext (ext listed) (ext declared)
    exact ⟨tables, sound, lanes, tables ▸ before.owned.edits _, admitted⟩
  by_cases tick : msg = .advance
  · subst tick
    obtain ⟨flipped, same⟩ := ends_handleAdvance committed ends
    refine ⟨by rw [lanesAfter, same], flipped.sound before.modules, fun id => by rw [flipped.rosters]; rfl, fun moduleId given held never => ?_⟩
    by_cases armed : moduleId ∈ armedSwaps scratch.staged.store env.height
    · rw [flipped.within moduleId armed] at held
      obtain ⟨given, was, rfl⟩ := Option.map_eq_some_iff.mp held
      cases pending : given.pending with
      | none =>
        have still := before.admitted moduleId given was (by simpa [ModuleEntry.flip, pending] using never)
        simp [pending] at still
      | some swap => simp [given.flip_of_pending pending] at never
    · rw [flipped.outside moduleId armed] at held
      exact before.admitted moduleId given held never
  · obtain ⟨moved, sound, edited⟩ := ends_handleMsg ends tick before.modules
    have withdrawn : ∀ name moduleId, msg = .cancelSwap name moduleId → codeless scratch.staged.get moduleId = true →
        entry after.staged.get moduleId = none := by
      rintro name moduleId rfl
      exact (ends_handleCancelSwap ends before.modules).2
    refine ⟨edited, sound, listed_moved moved before.modules sound withdrawn, ?_⟩
    obtain ⟨moduleId, move, frame⟩ := moved
    intro other given held never
    by_cases same : other = moduleId
    · subst same
      generalize was : entry scratch.staged.get other = old at move
      rw [held] at move
      cases move with
      | register => cases never
      | schedule | announce | signal => rfl
      | cancel _ name before =>
        have unused : before.history = [] := never
        have gone := withdrawn name other rfl (by simp [codeless, was, activeCodeHash, unused])
        cases gone.symm.trans held
    · rw [frame other same] at held
      exact before.admitted other given held never

theorem consistent_seed {moduleId : String} {given : Seed} (ends : Ends ask (M.seed moduleId given) scratch () after)
    (before : Consistent scratch.staged.get) : Consistent after.staged.get := by
  have sound := ends_seed ends before.modules
  simp only [seed, ends_bind, ends_refuseIf, ends_stage] at ends
  obtain ⟨_, _, ⟨-, rfl⟩, _, declared, lanes, _, _, ⟨rfl, rfl⟩, _, enrolled, enrols, rfl⟩ := ends
  obtain ⟨same, edited⟩ := ends_declareLanes lanes
  obtain ⟨-, entries, members⟩ := ends_enrol enrols (same.sound before.modules)
  obtain ⟨kept, table⟩ := admitLanes_ok before.lanes edited
  have tables : laneTable enrolled.staged.get = laneTable declared.staged.get := by
    unfold enrol at enrols
    split at enrols
    · obtain ⟨-, rfl⟩ := ends_pure.mp enrols
      rfl
    · rw [ends_storeRoster enrols]
      simp
  refine ⟨sound, by simpa [tables] using kept, fun lane mem => ?_, fun other entry held never => ?_⟩
  · have listed : lane ∈ laneTable declared.staged.get := by simpa [Tables.of, tables] using mem
    have member : lane.moduleId = moduleId ∨ lane.moduleId ∈ roster declared.staged.get := by
      rw [same.rosters]
      refine ((table lane).mp listed).imp (fun new => ?_) (before.owned lane)
      obtain ⟨decl, -, rfl⟩ := mem_map.mp new
      rfl
    exact (members lane.moduleId).mpr member
  · rw [StagedStore.get_stage, entry_put_mod, entries, same.entries] at held
    split at held
    · cases held
      cases never
    · exact before.admitted other entry held never

end operations

/-! ## Runs -/

section runs

variable {M : Modules} {staged : StagedStore Key Value}

theorem consistent_accepted {call : Invocation ModulesMsg} {staged' : StagedStore Key Value}
    {out : Outputs} (committed : Sound staged.store) (before : Consistent staged.get)
    (accepted : call.accepted M.handleMsg staged = some (staged', out)) : staged'.store = staged.store ∧
      Tables.of staged'.get = (edits staged.get call.msg).foldl Tables.edit (Tables.of staged.get) ∧
      Consistent staged'.get := by
  have ends := Invocation.accepted_iff.mp accepted
  exact ⟨M.stages_handleMsg _ _ _ _ _ _ ends, consistent_handleMsg ends committed before⟩

theorem Reachable.consistent {s : Store} (reached : M.Reachable s) : Consistent s := by
  refine reached.invariant ⟨⟨.nil, fun _ => by simp [roster, entry], by simp [entry]⟩, ⟨.nil, nofun, nofun⟩,
    nofun, nofun⟩ consistent_seed fun ends committed before => ?_
  exact (consistent_handleMsg ends committed.modules before).2

variable (M) in
/-- A state during a block: its start over a reachable registry, or what an accepted call left. -/
inductive Running : StagedStore Key Value → Prop
  | start {s : Store} (reached : M.Reachable s) : Running (.new s)
  | call {staged staged' : StagedStore Key Value} {call : Invocation ModulesMsg} {out : Outputs}
      (before : Running staged) (accepted : call.accepted M.handleMsg staged = some (staged', out)) : Running staged'

variable (M) in
/-- Accepted calls and block boundaries, with the edits the calls made. -/
inductive Course : StagedStore Key Value → List Edit → StagedStore Key Value → Prop
  | done (staged : StagedStore Key Value) : Course staged [] staged
  | call {staged staged' last : StagedStore Key Value} {call : Invocation ModulesMsg} {out : Outputs}
      {later : List Edit} (accepted : call.accepted M.handleMsg staged = some (staged', out))
      (rest : Course staged' later last) : Course staged (edits staged.get call.msg ++ later) last
  | commit {staged last : StagedStore Key Value} {later : List Edit} (rest : Course (.new staged.get) later last) :
      Course staged later last

theorem Running.consistent (running : M.Running staged) :
    Sound staged.store ∧ Consistent staged.get := by
  induction running with
  | start reached => exact ⟨reached.sound, reached.consistent⟩
  | call _ accepted ih =>
    obtain ⟨store, -, after⟩ := consistent_accepted ih.1 ih.2 accepted
    exact ⟨store ▸ ih.1, after⟩

theorem Course.consistent {last : StagedStore Key Value} {between : List Edit}
    (course : M.Course staged between last) (committed : Sound staged.store)
    (before : Consistent staged.get) :
    Sound last.store ∧ Consistent last.get ∧ Tables.of last.get = between.foldl Tables.edit (Tables.of staged.get) := by
  induction course with
  | done => exact ⟨committed, before, rfl⟩
  | call accepted _ ih =>
    obtain ⟨store, tables, after⟩ := consistent_accepted committed before accepted
    obtain ⟨sound, consistent, later⟩ := ih (store ▸ committed) after
    exact ⟨sound, consistent, by rw [later, tables, List.foldl_append]⟩
  | commit _ ih => exact ih before.modules before

/-- **The registry's tables are consistent in every state of every run**, and cancelling an admission leaves
the tables the other modules' operations since then make of those before it: the roster and the lane table
are those of any consistent registry that never had it. -/
theorem registry_consistent {staged : StagedStore Key Value} (running : M.Running staged) :
    Consistent staged.get ∧
      ∀ {admission cancel : Invocation ModulesMsg} {admitted last left : StagedStore Key Value} {out out' : Outputs}
        {name name' moduleId : String} {kind : Kind} {floor : Nat} {codeHash : Bytes} {lanes : List LaneDecl}
        {between : List Edit},
        admission.msg = .scheduleRegister name moduleId kind floor codeHash lanes →
        admission.accepted M.handleMsg staged = some (admitted, out) →
        M.Course admitted between last → (∀ edit ∈ between, edit.moduleId ≠ moduleId) →
        cancel.msg = .cancelSwap name' moduleId → codeless last.get moduleId = true →
        cancel.accepted M.handleMsg last = some (left, out') →
        Tables.of left.get = between.foldl Tables.edit (Tables.of staged.get) ∧
          ∀ s, Consistent s → Tables.of s = between.foldl Tables.edit (Tables.of staged.get) →
            roster left.get = roster s ∧ laneTable left.get = laneTable s := by
  obtain ⟨committed, before⟩ := running.consistent
  refine ⟨before, ?_⟩
  intro admission cancel admitted last left out out' name name' moduleId kind floor codeHash lanes between
    admits accepted course apart cancels never withdrawn
  have absent : moduleId ∉ (Tables.of staged.get).modules := by
    have ends := Invocation.accepted_iff.mp accepted
    rw [admits] at ends
    obtain ⟨_, move, -⟩ := (ends_handleMsg ends (by simp) before.modules).moved
    show moduleId ∉ roster staged.get
    rw [before.modules.listed]
    generalize was : entry staged.get _ = old at move
    generalize entry _ _ = new at move
    cases move with
    | announce => simp [was]
  obtain ⟨store, declared, after⟩ := consistent_accepted committed before accepted
  obtain ⟨sound, consistent, since⟩ := course.consistent (store ▸ committed) after
  obtain ⟨-, withdraws, final⟩ := consistent_accepted sound consistent withdrawn
  have tables : Tables.of left.get = between.foldl Tables.edit (Tables.of staged.get) := by
    rw [withdraws, cancels, edits, if_pos never, List.foldl_cons, List.foldl_nil, since,
      Tables.withdraw_edits apart, declared, admits, edits, List.foldl_cons, List.foldl_nil,
      Tables.declare_withdraw before.owned absent]
  exact ⟨tables, fun s there same => final.eq there (tables.trans same.symm)⟩

end runs

/-- A module is admitted with lane 5, another one then registered with the lanes around it. -/
theorem registry_consistent_neighbours :
    let admission := callAt 1 .system (.scheduleRegister "a" "n" .module 9 (sampleHash 2) [⟨5, "bulk", none⟩])
    let neighbours : List LaneDecl := [⟨7, "bulk", none⟩, ⟨4, "aux", none⟩]
    ∃ admitted grown left out out' out'',
      admission.accepted soleRegistry.handleMsg (.new foundedScratch.staged.store) = some (admitted, out) ∧
      (callAt 1 .system (.registerModule "k" .module (sampleHash 3) neighbours)).accepted soleRegistry.handleMsg
        admitted = some (grown, out') ∧
      (callAt 2 .system (.cancelSwap "a" "n")).accepted soleRegistry.handleMsg (.new grown.get) = some (left, out'') ∧
      Tables.of left.get = (Tables.of foundedScratch.staged.store).edit (.declare "k" neighbours) := by
  intro admission neighbours
  have accepted : ((admission.accepted soleRegistry.handleMsg (.new foundedScratch.staged.store)).bind fun admitted =>
      ((callAt 1 .system (.registerModule "k" .module (sampleHash 3) neighbours)).accepted soleRegistry.handleMsg
        admitted.1).bind fun grown =>
      if codeless grown.1.get "n" then
        (callAt 2 .system (.cancelSwap "a" "n")).accepted soleRegistry.handleMsg (.new grown.1.get)
      else none).isSome = true := by decide +kernel
  obtain ⟨⟨left, out''⟩, accepted⟩ := Option.isSome_iff_exists.mp accepted
  obtain ⟨⟨admitted, out⟩, first, accepted⟩ := Option.bind_eq_some_iff.mp accepted
  obtain ⟨⟨grown, out'⟩, second, accepted⟩ := Option.bind_eq_some_iff.mp accepted
  split at accepted
  · rename_i never
    refine ⟨admitted, grown, left, out, out', out'', first, second, accepted, ?_⟩
    have course : soleRegistry.Course admitted [.declare "k" neighbours] (.new grown.get) :=
      .call second (.commit (.done _))
    exact ((registry_consistent (.start reachable_founded)).2 rfl first course (by simp [Edit.moduleId]) rfl never
      accepted).1
  · cases accepted

end Ducktape.Modules
