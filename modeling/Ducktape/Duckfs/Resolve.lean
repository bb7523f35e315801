import Mathlib.Data.Finset.Image

/-! # Which snapshot a client's commit produced

A commit's receipt names only the block it landed in. `resolveSnapshot` looks for the snapshot in the
node's newest page of history: a single entry at the height is taken as it is, several are told apart by
the paths each introduced.

A page ends where it ends, so it can cut a block in two. `newestAt_eq` says which part of a block the
page still shows; from it `resolves_own_iff` says for which histories the client never adopts another
writer's snapshot. `foreign_adopted` is a history where it does: the page shows the last commit of the
block only, and ours came before it. -/

namespace Ducktape.Duckfs

open List

/-- `MAX_PAGE`, the clamp of one page. -/
def maxPage : Nat := 256

/-- `HISTORY_WINDOW`, how many commits a node's history holds. -/
def historyWindow : Nat := 1024

/-- A change of a commit, as far as its paths. -/
inductive Change
  | put (path : String)
  | mkdir (path : String)
  | rm (path : String)
  | mv (source target : String)
  | symlink (path : String)

/-- One entry of the history. -/
structure SnapshotInfo where
  id : String
  parent : Option String
  height : Nat
  deriving DecidableEq

inductive ApiError
  | rejected (reason : String)
  | notFound
  | transport (reason : String)

inductive CommitError
  | landed (height : Nat) (reason : String)
  | rejected (reason : String)
  | transport (reason : String)

def CommitError.ofApi : ApiError → CommitError
  | .rejected reason => .rejected reason
  | .notFound => .transport "not found"
  | .transport reason => .transport reason

/-- The node's answers the resolution reads: a page of history, newest first, and the paths two
snapshots differ at below a prefix. -/
structure NodeApi where
  history : Nat → Except ApiError (List SnapshotInfo)
  diff : String → String → String → Except ApiError (List String)

/-- The paths a commit's changes touch. -/
def changePaths (changes : List Change) : Finset String :=
  changes.foldl (fun set change => match change with
    | .put path | .mkdir path | .rm path | .symlink path => insert path set
    | .mv source target => insert target (insert source set)) ∅

section Resolve

variable (api : NodeApi) (ours : Finset String) (pre : String)

/-- Does what `cand` introduced, as far as the node can tell, meet our paths? -/
def touches (cand : SnapshotInfo) : Bool :=
  match api.diff (cand.parent.getD "") cand.id pre with
  | .error _ => false
  | .ok touched => ¬ Disjoint ours touched.toFinset

/-- The loop over several candidates; a second match ends it with none. -/
def disambiguate (found : Option String) : List SnapshotInfo → Option String
  | [] => found
  | cand :: rest =>
    match api.diff (cand.parent.getD "") cand.id pre with
    | .error _ => disambiguate found rest
    | .ok touched =>
      if Disjoint ours touched.toFinset then disambiguate found rest
      else if found.isSome then none
      else disambiguate (some cand.id) rest

/-- The entries of the page at the commit's height decide: none is reported, a single one is taken
unseen, several go through `disambiguate`. -/
def resolveAmong (height : Nat) : List SnapshotInfo → Except CommitError String
  | [] => .error (.landed height
      s!"no entry at that height in the newest {maxPage} commits, and history cannot be paged further back")
  | [only] => .ok only.id
  | candidates =>
    match disambiguate api ours pre none candidates with
    | some id => .ok id
    | none => .error (.landed height
        (s!"ambiguous among {candidates.length} same-height commits, " ++
          "none of which could be matched to the committed paths"))

/-- `resolve_snapshot`: the id of the snapshot our commit produced, for a commit that landed at `height`
and changed the paths `ours`. The node clamps a page to its newest `maxPage` commits, and offers no cursor
to read further back. -/
def resolveSnapshot (height : Nat) : Except CommitError String := do
  let history ← (api.history maxPage).mapError .ofApi
  resolveAmong api ours pre height (history.filter (·.height = height))

variable {api ours pre}

theorem disambiguate_cons (found : Option String) (cand : SnapshotInfo) (rest : List SnapshotInfo) :
    disambiguate api ours pre found (cand :: rest)
      = if touches api ours pre cand then
          if found.isSome then none else disambiguate api ours pre (some cand.id) rest
        else disambiguate api ours pre found rest := by
  rw [disambiguate, touches]
  split
  · rfl
  · simp only [decide_not, Bool.not_eq_true', decide_eq_false_iff_not, ite_not]

/-- The loop ends with the one candidate that meets our paths. -/
theorem disambiguate_eq (found : Option String) (cands : List SnapshotInfo) :
    disambiguate api ours pre found cands
      = match found.toList ++ (cands.filter (touches api ours pre)).map (·.id) with
        | [id] => some id
        | _ => none := by
  induction cands generalizing found with
  | nil => cases found <;> rfl
  | cons cand rest ih =>
    rw [disambiguate_cons, filter_cons]
    split
    · cases found with
      | none => exact ih (some cand.id)
      | some id => simp
    · exact ih found

variable {height : Nat} {cands : List SnapshotInfo}

/-- What is returned: the one entry at the height, or the one of several that meets our paths. -/
theorem resolveAmong_eq_ok {id : String} : resolveAmong api ours pre height cands = .ok id ↔
    ∃ only, only.id = id ∧ (cands = [only] ∨
      cands.filter (touches api ours pre) = [only]) := by
  rcases cands with _ | ⟨a, _ | ⟨b, rest⟩⟩
  · simp [resolveAmong]
  · cases here : touches api ours pre a <;> simp [resolveAmong, here]
  · rw [resolveAmong, disambiguate_eq]
    · rcases (a :: b :: rest).filter (touches api ours pre) with _ | ⟨c, _ | ⟨d, more⟩⟩ <;> simp
    all_goals simp

/-- Anything else is reported as landed. -/
theorem resolveAmong_landed :
    (∃ id, resolveAmong api ours pre height cands = .ok id) ∨
      ∃ reason, resolveAmong api ours pre height cands = .error (.landed height reason) := by
  fun_cases resolveAmong api ours pre height cands <;> simp

end Resolve

/-- The commits a node accepted, oldest first, and its diffs. A block is applied after the one below it,
and an id is the hash of its snapshot. -/
structure NodeHistory where
  commits : List SnapshotInfo
  diff : String → String → String → Except ApiError (List String)
  ascending : commits.Pairwise (·.height ≤ ·.height)
  distinct : (commits.map (·.id)).Nodup

namespace NodeHistory

variable (node : NodeHistory) {own : SnapshotInfo}

/-- The newest page of the window the node keeps. -/
def page (limit : Nat) : List SnapshotInfo :=
  (node.commits.reverse.take historyWindow).take (max 1 (min limit maxPage))

/-- The node as its client sees it. -/
def api : NodeApi where
  history limit := .ok (node.page limit)
  diff := node.diff

/-- The commits of one block, oldest first. -/
def block (height : Nat) : List SnapshotInfo := node.commits.filter (·.height = height)

/-- How many commits came in after a block. -/
def later (height : Nat) : Nat := node.commits.countP (height < ·.height)

/-- The entries of the newest page at a height. -/
def newestAt (height : Nat) : List SnapshotInfo := (node.page maxPage).filter (·.height = height)

theorem resolveSnapshot_api (ours : Finset String) (pre : String) (height : Nat) :
    resolveSnapshot node.api ours pre height = resolveAmong node.api ours pre height (node.newestAt height) :=
  rfl

/-- Newest first, the first `n` commits show of one height what the greater heights leave room for. -/
theorem filter_take (height n : Nat) {commits : List SnapshotInfo}
    (descending : commits.Pairwise (·.height ≥ ·.height)) :
    (commits.take n).filter (·.height = height) =
      (commits.filter (·.height = height)).take (n - commits.countP (height < ·.height)) := by
  induction commits generalizing n with
  | nil => simp
  | cons first rest ih =>
    obtain ⟨greatest, descending⟩ := pairwise_cons.mp descending
    cases n with
    | zero => simp
    | succ n =>
      have shown := ih n descending
      rcases Nat.lt_trichotomy first.height height with below | rfl | above
      · -- everything from here on is below the height
        have gone (entry : SnapshotInfo) (mem : entry ∈ rest) : entry.height ≠ height :=
          ((greatest entry mem).trans_lt below).ne
        have none : rest.filter (·.height = height) = [] := by simpa using gone
        have none' : (rest.take n).filter (·.height = height) = [] := by
          simpa using fun entry mem => gone entry (mem_of_mem_take mem)
        simp [below.ne, none, none']
      · have last : rest.countP (first.height < ·.height) = 0 := by simpa using greatest
        rw [last] at shown
        simpa [last] using shown
      · simpa [above.ne', above] using shown

/-- **What the page shows of a block**: its newest commits, as many as those that came in after it leave
room for. -/
theorem newestAt_eq (height : Nat) :
    node.newestAt height = (node.block height).reverse.take (maxPage - node.later height) := by
  have page : node.page maxPage = node.commits.reverse.take maxPage := by
    rw [NodeHistory.page, take_take]
    rfl
  rw [newestAt, page, filter_take height maxPage (pairwise_reverse.mpr node.ascending), filter_reverse,
    countP_reverse]
  rfl

variable {node}

theorem mem_newestAt : own ∈ node.newestAt own.height ↔ own ∈ node.page maxPage := by
  simp [newestAt]

theorem mem_commits {height : Nat} (mem : own ∈ node.newestAt height) : own ∈ node.commits := by
  rw [newestAt_eq] at mem
  exact (mem_filter.mp (mem_reverse.mp (mem_of_mem_take mem))).1

theorem eq_of_id {other : SnapshotInfo} (mem : other ∈ node.commits) (own_mem : own ∈ node.commits)
    (same : other.id = own.id) : other = own :=
  inj_on_of_nodup_map node.distinct mem own_mem same

end NodeHistory

section Own

variable (node : NodeHistory) (own : SnapshotInfo) (changes : List Change) (pre : String)

/-- The resolution names our own snapshot, or says that the commit landed and cannot be resolved. -/
def Settles : Prop :=
  resolveSnapshot node.api (changePaths changes) pre own.height = .ok own.id ∨
    ∃ reason, resolveSnapshot node.api (changePaths changes) pre own.height = .error (.landed own.height reason)

variable {node own changes pre}

/-- No entry of another writer may be singled out, neither alone at the height nor alone in meeting our
paths. -/
theorem settles_iff : Settles node own changes pre ↔
    ∀ other, other.id ≠ own.id → node.newestAt own.height ≠ [other] ∧
      (node.newestAt own.height).filter (touches node.api (changePaths changes) pre) ≠ [other] := by
  rw [Settles, node.resolveSnapshot_api]
  constructor
  · intro settled other foreign
    rw [← not_or]
    intro singled
    rw [resolveAmong_eq_ok.mpr ⟨other, rfl, singled⟩] at settled
    obtain same | ⟨_, fails⟩ := settled
    · exact foreign (Except.ok.inj same)
    · cases fails
  · intro others
    obtain ⟨id, returned⟩ | landed :=
      @resolveAmong_landed node.api (changePaths changes) pre own.height (node.newestAt own.height)
    · obtain ⟨only, rfl, singled⟩ := resolveAmong_eq_ok.mp returned
      by_cases same : only.id = own.id
      · exact .inl (same ▸ returned)
      · obtain ⟨several, unmatched⟩ := others only same
        exact absurd singled (not_or.mpr ⟨several, unmatched⟩)
    · exact .inr landed

/-- The page shows of our block one commit of another writer's only: where it has room for one, and ours
is not the block's last. -/
theorem newestAt_other_iff (mem : own ∈ node.commits) :
    (∃ other, other.id ≠ own.id ∧ node.newestAt own.height = [other]) ↔
      node.later own.height = maxPage - 1 ∧ (node.block own.height).getLast? ≠ some own := by
  have ours : own ∈ (node.block own.height).reverse := by simp [NodeHistory.block, mem]
  have known (last) (held : last ∈ (node.block own.height).reverse) : last ∈ node.commits :=
    (mem_filter.mp (mem_reverse.mp held)).1
  rw [node.newestAt_eq, ← head?_reverse]
  cases newest : (node.block own.height).reverse with
  | nil => simp [newest] at ours
  | cons last older =>
    rw [newest] at ours known
    constructor
    · rintro ⟨other, foreign, shown⟩
      cases room : maxPage - node.later own.height with
      | zero => simp [room] at shown
      | succ more =>
        obtain ⟨rfl, none⟩ : last = other ∧ older.take more = [] := by simpa [room] using shown
        have apart : last ≠ own := fun same => foreign (congrArg _ same)
        refine ⟨?_, by simpa using apart⟩
        rcases take_eq_nil_iff.mp none with rfl | rfl
        · omega
        · exact absurd (mem_singleton.mp ours).symm apart
    · rintro ⟨room, apart⟩
      refine ⟨last, fun same => apart ?_, by simp [room, maxPage]⟩
      rw [head?_cons, NodeHistory.eq_of_id (known last (.head _)) mem same]

/-- **When a client adopts no other writer's snapshot**: where its own commit is on the newest page and its
diff, answered, names a path it changed; and otherwise where the page does not end right below the last
commit of the block while ours is an earlier one, and not exactly one other commit of the block on the page
touches our paths. -/
theorem resolves_own_iff (mem : own ∈ node.commits) :
    Settles node own changes pre ↔
      own ∈ node.page maxPage ∧ touches node.api (changePaths changes) pre own ∨
      ¬ (node.later own.height = maxPage - 1 ∧ (node.block own.height).getLast? ≠ some own) ∧
        (node.page maxPage).countP (fun other => other.height = own.height ∧ other ≠ own ∧
          touches node.api (changePaths changes) pre other) ≠ 1 := by
  rw [settles_iff, ← newestAt_other_iff mem, ← NodeHistory.mem_newestAt]
  generalize touches node.api (changePaths changes) pre = meets
  -- the other commits that count, as a part of what the page shows of the block
  have others : (node.page maxPage).countP (fun other => other.height = own.height ∧ other ≠ own ∧ meets other)
      = (((node.newestAt own.height).filter meets).filter (· ≠ own)).length := by
    rw [countP_eq_length_filter, NodeHistory.newestAt, filter_filter, filter_filter]
    congr 2
    grind
  rw [others]
  constructor
  · intro alone
    by_cases visible : own ∈ node.newestAt own.height ∧ meets own
    · exact .inl visible
    refine .inr ⟨fun ⟨other, foreign, shown⟩ => (alone other foreign).1 shown, fun one => ?_⟩
    have all : ((node.newestAt own.height).filter meets).filter (· ≠ own)
        = (node.newestAt own.height).filter meets := by
      refine filter_eq_self.mpr fun entry held => decide_eq_true ?_
      rintro rfl
      exact visible (mem_filter.mp held)
    obtain ⟨other, single⟩ := length_eq_one_iff.mp (all ▸ one)
    have held : other ∈ node.newestAt own.height ∧ meets other := mem_filter.mp (single ▸ mem_singleton_self other)
    refine (alone other fun same => visible ?_).2 single
    exact NodeHistory.eq_of_id (NodeHistory.mem_commits held.1) mem same ▸ held
  · rintro (visible | ⟨several, unmatched⟩) other foreign
    · refine ⟨fun shown => ?_, fun shown => ?_⟩
      · exact foreign (congrArg _ (mem_singleton.mp (shown ▸ visible.1)).symm)
      · exact foreign (congrArg _ (mem_singleton.mp (shown ▸ mem_filter.mpr visible)).symm)
    · refine ⟨fun shown => several ⟨other, foreign, shown⟩, fun shown => unmatched ?_⟩
      have apart : other ≠ own := fun same => foreign (congrArg _ same)
      simp [shown, apart]

end Own

/-- Commit `i` of a run of 257, the first two in one block. -/
def commitAt (i : Nat) : SnapshotInfo :=
  ⟨String.ofList (replicate i 'c'), some (String.ofList (replicate (i - 1) 'c')), if i = 0 then 1 else i⟩

theorem commitAt_injective : Function.Injective fun i => (commitAt i).id := by
  intro i j same
  simpa [commitAt] using congrArg String.length same

/-- The first `n` of them; each introduces the path that is its own id. -/
def crowded (n : Nat) : NodeHistory where
  commits := (range n).map commitAt
  diff _ target _ := .ok [target]
  ascending := by
    refine pairwise_map.mpr (pairwise_lt_range.imp fun {i j} less => ?_)
    simp only [commitAt]
    split_ifs <;> omega
  distinct := by
    rw [map_map]
    exact nodup_range.map commitAt_injective

/-- With both commits of the block on the page ours is told from the other by its path. -/
theorem resolves_own_pair : Settles (crowded 2) (commitAt 0) [.put ""] "" :=
  (resolves_own_iff (by decide)).mpr (.inl (by decide))

/-- The newest page starts inside the block: our commit, the older of its two, is off the page, and the
other one is taken for it. -/
theorem foreign_adopted :
    commitAt 0 ∈ (crowded 257).commits ∧ (commitAt 1).id ≠ (commitAt 0).id ∧
      resolveSnapshot (crowded 257).api (changePaths [.put ""]) "" (commitAt 0).height = .ok (commitAt 1).id := by
  have commits : (crowded 257).commits = commitAt 0 :: commitAt 1 :: (range 255).map (commitAt <| · + 2) := by
    change (range 257).map commitAt = _
    rw [range_succ_eq_map, range_succ_eq_map]
    simp [Function.comp_def]
  have later : (crowded 257).later 1 = 255 := by
    rw [NodeHistory.later, commits]
    simp [commitAt, countP_map, Function.comp_def]
  have block : (crowded 257).block 1 = [commitAt 0, commitAt 1] := by
    rw [NodeHistory.block, commits]
    simp [commitAt]
  refine ⟨by simp [commits], by simp [commitAt], ?_⟩
  rw [(crowded 257).resolveSnapshot_api]
  refine resolveAmong_eq_ok.mpr ⟨commitAt 1, rfl, .inl ?_⟩
  rw [NodeHistory.newestAt_eq, show (commitAt 0).height = 1 from rfl, later, block]
  rfl

end Ducktape.Duckfs
