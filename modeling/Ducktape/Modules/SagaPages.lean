import Ducktape.Modules.SagaExact

/-! # Walking a lane of live sagas

A worker reads its lane page by page: `pendingPage` gives the requests of a run of candidates and the cursor
to go on from. `walk_exact`: in every reachable ledger, following the cursor ends and gives every request of
the lane once, in the order of the ids. -/

namespace Ducktape.SagaModule

open Lib Handler Std List ExtTreeMap Nat

/-! ## One page -/

/-- Which of the live sagas a walk is for. -/
inductive Lane
  /-- Attempts leased to this key. -/
  | leasedTo (key : Bytes)
  /-- Announcements no node holds a lease on. -/
  | unclaimed

def Lane.admitsMeta : Lane → PendingMeta → Bool
  | .leasedTo _, row => row.assigned
  | .unclaimed, row => !row.assigned

def Lane.admits : Lane → Saga → Bool
  | .leasedTo key, saga => saga.assignee = some key
  | .unclaimed, saga => saga.assignee.isNone

def pendingPageSize : Nat := 64

def pendingPageBytes : Nat := 4 * 1024 * 1024

structure PendingPage where
  requests : List WorkerRequest
  next : Option SagaId

def workerRequest (sagaId : SagaId) (saga : Saga) (spec : Bytes) : WorkerRequest :=
  ⟨sagaId, saga.attempt, spec, saga.deadline, saga.assignee⟩

/-- `after < id`, the order of the ids' bytes. -/
def precedes (after id : SagaId) : Bool := (compare after id).isLT

@[simp] theorem precedes_iff {after id : SagaId} : precedes after id = true ↔ after < id := by
  rw [precedes, Ordering.isLT_iff_eq_lt]
  exact compareOfLessAndEq_eq_lt

/-- The ids of a lane's rows after the cursor, in order. -/
def candidates (s : Store) (lane : Lane) (after : Option SagaId) : List SagaId :=
  (((loadPending s).toList.filter fun row => after.all (precedes · row.1)).filter fun row => lane.admitsMeta row.2).map Prod.fst

/-- Read candidates until the byte budget is spent: how many were examined, and their requests. -/
def examine (budget : Nat) (lane : Lane) : (examined specBytes : Nat) → List SagaId → Op (Nat × List WorkerRequest)
  | examined, _, [] => pure (examined, [])
  | examined, specBytes, sagaId :: rest => do
      let saga ← requireSaga sagaId
      let weight := min (specBytes + saga.specLen) u64Max
      -- The first candidate is exempt, or a spec over the budget would stall the walk.
      if lane.admits saga ∧ examined ≠ 0 ∧ budget < weight then pure (examined, [])
      else if ¬ lane.admits saga then examine budget lane (examined + 1) specBytes rest
      else do
        let spec ← loadSpec sagaId saga.specLen
        let (total, requests) ← examine budget lane (examined + 1) weight rest
        pure (total, workerRequest sagaId saga spec :: requests)

/-- `pending_page`, for a page size and a byte budget. -/
def pendingPage (size budget : Nat) (lane : Lane) (after : Option SagaId) : Op PendingPage := do
  let s ← Handler.view
  let found := (candidates s lane after).take (size + 1)
  let (examined, requests) ← examine budget lane 0 0 (found.take size)
  pure ⟨requests, if examined < found.length then (found.take examined).getLast? else none⟩

/-- Follow the cursor to the end, for at most so many pages. -/
def walk (size budget : Nat) (lane : Lane) : Nat → Option SagaId → Op (Option (List WorkerRequest))
  | 0, _ => pure none
  | pages + 1, after => do
      let page ← pendingPage size budget lane after
      match page.next with
      | none => pure (some page.requests)
      | some cursor => do
          let later ← walk size budget lane pages (some cursor)
          pure (later.map (page.requests ++ ·))

/-! ## The live index -/

variable {after : Option SagaId}

section reads

variable {S : SagaModule} {specs : SagaId → Bytes} {s : Store} {lane : Lane} {id : SagaId}

/-- A live saga's row is in the merged index. -/
theorem loadPending_iff (exact : Exact S specs s) {row : PendingMeta} : (loadPending s)[id]? = some row ↔
    ∃ saga, record s id = some saga ∧ saga.status = .pending ∧ row = .of saga := by
  have one : ∀ shard other, (pendingIn s shard)[id]? = some other ↔ shard = S.pendingShard id ∧
      ∃ saga, record s id = some saga ∧ saga.status = .pending ∧ other = .of saga := fun shard other =>
    exact.pending shard id other
  constructor
  · intro found
    obtain ⟨shard, found⟩ := loadPending_row found
    exact ((one shard row).mp found).2
  · rintro ⟨saga, recorded, live, rfl⟩
    -- Only the id's own shard names it, so no later shard covers its row.
    have merged : ∀ (shards : List Nat) (start : PendingIndex),
        start[id]? = some (.of saga) ∨ S.pendingShard id ∈ shards →
        (shards.foldl (fun merged shard => merged.insertMany (pendingIn s shard).toList) start)[id]? =
          some (.of saga) := by
      intro shards
      induction shards with
      | nil => exact fun start found => found.resolve_right not_mem_nil
      | cons shard shards ih =>
        intro start found
        refine ih _ ?_
        by_cases own : shard = S.pendingShard id
        · left
          refine getElem?_insertMany_list_of_mem Std.ReflCmp.compare_self distinct_keys_toList ?_
          exact mem_toList_iff_getElem?_eq_some.mpr ((one _ _).mpr ⟨own, saga, recorded, live, rfl⟩)
        · refine found.imp (fun before => ?_) fun mem => (mem_cons.mp mem).resolve_left (Ne.symm own)
          rw [getElem?_insertMany_list_of_contains_eq_false, before]
          rw [Bool.eq_false_iff, Ne, List.contains_iff_mem, List.mem_map]
          rintro ⟨⟨_, row⟩, listed, rfl⟩
          exact own ((one shard row).mp (mem_toList_iff_getElem?_eq_some.mp listed)).1
    exact merged _ ∅ (.inr (mem_range.mpr (mod_lt _ (by decide))))

theorem mem_candidates (exact : Exact S specs s) :
    id ∈ candidates s lane after ↔ after.all (precedes · id) = true ∧
      ∃ saga, record s id = some saga ∧ saga.status = .pending ∧ lane.admitsMeta (.of saga) = true := by
  simp only [candidates, mem_map, mem_filter, Prod.exists,
    mem_toList_iff_getElem?_eq_some, loadPending_iff exact]
  constructor
  · rintro ⟨_, row, ⟨⟨⟨saga, recorded, live, rfl⟩, later⟩, admitted⟩, rfl⟩
    exact ⟨later, saga, recorded, live, admitted⟩
  · rintro ⟨later, saga, recorded, live, admitted⟩
    exact ⟨id, _, ⟨⟨⟨saga, recorded, live, rfl⟩, later⟩, admitted⟩, rfl⟩

theorem pairwise_candidates (s : Store) (lane : Lane) (after : Option SagaId) :
    (candidates s lane after).Pairwise (· < ·) := by
  refine pairwise_map.mpr (List.Pairwise.filter _ (List.Pairwise.filter _ ?_))
  refine (ordered_keys_toList).imp ?_
  intro row later below
  exact compareOfLessAndEq_eq_lt.mp below

/-- The candidates after a cursor are those behind it. -/
theorem candidates_after {front rest : List SagaId} {cursor : SagaId}
    (split : candidates s lane after = front ++ rest) (last : front.getLast? = some cursor) :
    candidates s lane (some cursor) = rest := by
  obtain ⟨before, rfl⟩ := getLast?_eq_some_iff.mp last
  have listed : cursor ∈ candidates s lane after := by
    rw [split]
    simp
  have passed : after.all (precedes · cursor) = true := by
    obtain ⟨_, kept, rfl⟩ := mem_map.mp listed
    exact (mem_filter.mp (mem_filter.mp kept).1).2
  have ahead : ∀ id : SagaId, cursor < id → after.all (precedes · id) = true := by
    intro id below
    cases after with
    | none => rfl
    | some start =>
      have reached : start < cursor := by simpa using passed
      simpa using String.lt_trans reached below
  have narrowed : candidates s lane (some cursor) = (candidates s lane after).filter (precedes cursor) := by
    rw [candidates, candidates, filter_map, filter_filter, filter_filter, filter_filter]
    congr 1
    refine filter_congr fun row _ => ?_
    cases below : precedes cursor row.1 with
    | true => simp [below, ahead row.1 (precedes_iff.mp below)]
    | false => simp [below]
  have sorted := pairwise_candidates s lane after
  rw [split, append_assoc, pairwise_append] at sorted
  obtain ⟨-, tail, across⟩ := sorted
  rw [narrowed, split, filter_append, filter_append]
  have front : before.filter (precedes cursor) = [] := filter_eq_nil_iff.mpr fun id mem => by
    simpa using String.lt_asymm (across id mem cursor (by simp))
  have later : rest.filter (precedes cursor) = rest := filter_eq_self.mpr fun id mem => by
    simpa using (pairwise_cons.mp tail).1 id mem
  rw [front, later]
  simp

theorem Lane.admitsMeta_of {saga : Saga} (admitted : lane.admits saga = true) :
    lane.admitsMeta (.of saga) = true := by
  cases lane with
  | leasedTo key =>
    have held : saga.assignee = some key := by simpa [Lane.admits] using admitted
    simp [Lane.admitsMeta, PendingMeta.of, held]
  | unclaimed =>
    have free : saga.assignee = none := by simpa [Lane.admits] using admitted
    simp [Lane.admitsMeta, PendingMeta.of, free]

/-- The request of a candidate, if the lane admits it. -/
def requestOf (s : Store) (specs : SagaId → Bytes) (lane : Lane) (id : SagaId) : Option WorkerRequest :=
  (record s id).bind fun saga => if lane.admits saga then some (workerRequest id saga (specs id)) else none

theorem requestOf_some {request : WorkerRequest} : requestOf s specs lane id = some request ↔
    ∃ saga, record s id = some saga ∧ lane.admits saga = true ∧ request = workerRequest id saga (specs id) := by
  simp only [requestOf, Option.bind_eq_some_iff]
  refine exists_congr fun saga => and_congr_right fun _ => ?_
  by_cases admitted : lane.admits saga = true
  · rw [if_pos admitted, Option.some.injEq, eq_comm]
    exact (and_iff_right admitted).symm
  · rw [if_neg admitted]
    exact iff_of_false (fun none => nomatch none) fun both => admitted both.1

end reads

/-! ## Pages -/

section pages

variable {S : SagaModule} {specs : SagaId → Bytes} {staged : StagedStore Key Value} {out : Outputs} {lane : Lane}
  {ask : (q : Ask) → Answer q} {size budget : Nat}

/-- Examining candidates gives the requests of some first ones, of one at least. -/
theorem ends_examine (ask : (q : Ask) → Answer q) (out : Outputs) (budget : Nat) (lane : Lane)
    (exact : Exact S specs staged.get) {ids : List SagaId}
    (recorded : ∀ id ∈ ids, ∃ saga, record staged.get id = some saga) (examined specBytes : Nat) :
    ∃ count ≤ ids.length, (examined = 0 → ids ≠ [] → 0 < count) ∧
      Ends ask (examine budget lane examined specBytes ids) ⟨staged, out⟩
        (examined + count, (ids.take count).filterMap (requestOf staged.get specs lane)) ⟨staged, out⟩ := by
  induction ids generalizing examined specBytes with
  | nil => exact ⟨0, Nat.le_refl _, fun _ some => absurd rfl some, ends_pure.mpr ⟨rfl, rfl⟩⟩
  | cons id rest ih =>
    obtain ⟨saga, found⟩ := recorded id mem_cons_self
    have recorded' := fun id mem => recorded id (mem_cons_of_mem _ mem)
    have required : Ends ask (requireSaga id) ⟨staged, out⟩ saga ⟨staged, out⟩ := by
      simp only [requireSaga, ends_bind, ends_view, ends_require]
      exact ⟨_, _, ⟨rfl, rfl⟩, found, rfl⟩
    simp only [examine, ends_bind]
    by_cases over_ : lane.admits saga ∧ examined ≠ 0 ∧ budget < min (specBytes + saga.specLen) u64Max
    · refine ⟨0, zero_le _, fun first => absurd first over_.2.1, saga, _, required, ?_⟩
      rw [if_pos over_]
      exact ends_pure.mpr ⟨rfl, rfl⟩
    by_cases admitted : lane.admits saga = true
    · have request : requestOf staged.get specs lane id = some (workerRequest id saga (specs id)) := by
        simp [requestOf, found, admitted]
      obtain ⟨count, within, -, ends⟩ := ih recorded' (examined + 1) (min (specBytes + saga.specLen) u64Max)
      refine ⟨count + 1, succ_le_succ within, fun _ _ => succ_pos _, saga, _, required, ?_⟩
      rw [if_neg over_, if_neg (not_not.mpr admitted)]
      simp only [ends_bind, ends_pure]
      refine ⟨_, _, exact.loads found ask out, _, _, ends, ?_, rfl⟩
      rw [take_succ_cons, filterMap_cons_some request, add_assoc, add_comm 1 count]
    · have request : requestOf staged.get specs lane id = none := by simp [requestOf, found, admitted]
      obtain ⟨count, within, -, ends⟩ := ih recorded' (examined + 1) specBytes
      refine ⟨count + 1, succ_le_succ within, fun _ _ => succ_pos _, saga, _, required, ?_⟩
      rw [if_neg over_, if_pos admitted, take_succ_cons, filterMap_cons_none request, add_comm count 1,
        ← add_assoc]
      exact ends

/-- A page covers some first candidates, one at least, and its cursor is the last of them unless none is left. -/
theorem ends_pendingPage (exact : Exact S specs staged.get) (positive : 0 < size) (after : Option SagaId) :
    ∃ front rest, candidates staged.get lane after = front ++ rest ∧ (rest ≠ [] → front ≠ []) ∧
      Ends ask (pendingPage size budget lane after) ⟨staged, out⟩
        ⟨front.filterMap (requestOf staged.get specs lane), if rest = [] then none else front.getLast?⟩
        ⟨staged, out⟩ := by
  set all := candidates staged.get lane after with listed
  have recorded : ∀ id ∈ (all.take (size + 1)).take size, ∃ saga, record staged.get id = some saga := by
    intro id mem
    obtain ⟨-, saga, found, -⟩ := (mem_candidates exact).mp (mem_of_mem_take (mem_of_mem_take mem))
    exact ⟨saga, found⟩
  obtain ⟨count, within, some, ends⟩ := ends_examine ask out budget lane exact recorded 0 0
  rw [length_take] at within
  have shorter : (all.take (size + 1)).take count = all.take count := by
    rw [take_take, min_eq_left (by omega)]
  have same : ((all.take (size + 1)).take size).take count = all.take count := by
    rw [take_take, take_take, min_eq_left (by omega), min_eq_left (by omega)]
  have left : all.drop count = [] ↔ ¬ 0 + count < (all.take (size + 1)).length := by
    rw [drop_eq_nil_iff, length_take]
    omega
  refine ⟨all.take count, all.drop count, (take_append_drop count all).symm, fun more => ?_, ?_⟩
  · have nonempty : all ≠ [] := fun none => more (by rw [none, drop_nil])
    have positive' := some rfl (by simp [positive.ne', nonempty])
    simp [positive'.ne', nonempty]
  · simp only [pendingPage, ends_bind, ends_view, ends_pure]
    refine ⟨_, _, ⟨rfl, rfl⟩, _, _, ends, ?_, rfl⟩
    rw [same]
    by_cases done : all.drop count = []
    · rw [if_pos done, if_neg (left.mp done)]
    · rw [if_neg done, if_pos (not_not.mp (left.not.mp done)), zero_add, ← shorter]

/-- **Following the cursor** gives the requests of all candidates. -/
theorem ends_walk (exact : Exact S specs staged.get) (positive : 0 < size) {pages : Nat}
    (enough : (candidates staged.get lane after).length < pages) :
    Ends ask (walk size budget lane pages after) ⟨staged, out⟩
      (some ((candidates staged.get lane after).filterMap (requestOf staged.get specs lane))) ⟨staged, out⟩ := by
  induction pages generalizing after with
  | zero => exact absurd enough (not_lt_zero _)
  | succ pages ih =>
    obtain ⟨front, rest, split, progress, page⟩ := ends_pendingPage exact positive after
    simp only [walk, ends_bind]
    refine ⟨_, _, page, ?_⟩
    by_cases done : rest = []
    · rw [split, done, append_nil]
      exact ends_pure.mpr ⟨rfl, rfl⟩
    obtain ⟨cursor, last⟩ := Option.ne_none_iff_exists'.mp (mt getLast?_eq_none_iff.mp (progress done))
    rw [if_neg done, last]
    have rows := candidates_after split last
    have fewer : (candidates staged.get lane (some cursor)).length < pages := by
      have := length_pos_iff.mpr (progress done)
      rw [split, length_append] at enough
      rw [rows]
      omega
    simp only [ends_bind, ends_pure]
    refine ⟨_, _, ih fewer, ?_, rfl⟩
    rw [rows, split, filterMap_append]
    rfl

/-- **A walk of a lane is exact.** In every reachable ledger, for every lane, page size and byte budget, the walk
ends, and gives every request of the lane once, in the order of the ids. -/
theorem walk_exact {steps base : List Step} (run : Reachable S staged steps base) (positive : 0 < size) (lane : Lane)
    (budget : Nat) :
    ∃ requests enough, (∀ pages ≥ enough, ∀ ask out,
        Ends ask (walk size budget lane pages none) ⟨staged, out⟩ (some requests) ⟨staged, out⟩) ∧
      requests.Pairwise (fun request later => request.sagaId < later.sagaId) ∧
      ∀ request, request ∈ requests ↔ ∃ id saga, record staged.get id = some saga ∧ saga.status = .pending ∧
        lane.admits saga = true ∧ request = workerRequest id saga (specsOf steps id) := by
  have exact := run.sound.1.exact
  refine ⟨_, (candidates staged.get lane none).length + 1, fun pages enough ask out =>
    ends_walk exact positive enough, ?_, fun request => ?_⟩
  · refine List.pairwise_filterMap.mpr ((pairwise_candidates _ _ _).imp ?_)
    intro id later below request found request' found'
    obtain ⟨saga, -, -, rfl⟩ := requestOf_some.mp found
    obtain ⟨saga', -, -, rfl⟩ := requestOf_some.mp found'
    exact below
  · simp only [List.mem_filterMap, mem_candidates exact, requestOf_some]
    constructor
    · rintro ⟨id, ⟨-, saga, found, live, -⟩, saga', found', admitted, rfl⟩
      obtain rfl := Option.some.inj (found.symm.trans found')
      exact ⟨id, saga, found, live, admitted, rfl⟩
    · rintro ⟨id, saga, found, live, admitted, rfl⟩
      exact ⟨id, ⟨rfl, saga, found, live, Lane.admitsMeta_of admitted⟩, saga, found, admitted, rfl⟩

/-- The walk of the submitter's lane after both jobs are triggered, in pages of one and of the full size. -/
theorem walk_exact_jobs :
    let ledger := (jobRun [[], [0]]).1
    candidates ledger.get (.leasedTo [1]) none = [jobId, taskId] ∧ ∀ size ∈ [1, pendingPageSize],
      ∃ requests enough, (∀ pages ≥ enough, ∀ ask out,
        Ends ask (walk size pendingPageBytes (.leasedTo [1]) pages none) ⟨ledger, out⟩ (some requests) ⟨ledger, out⟩) ∧
      ∀ id ∈ [jobId, taskId], ∃ request ∈ requests, request.sagaId = id := by
  intro ledger
  refine ⟨by decide +kernel, fun size known => ?_⟩
  have positive : 0 < size := (by decide : ∀ size ∈ [1, pendingPageSize], 0 < size) size known
  obtain ⟨requests, enough, ends, -, members⟩ :=
    walk_exact (reachable_jobRun [[], [0]]) positive (.leasedTo [1]) pendingPageBytes
  refine ⟨requests, enough, ends, fun id listed => ?_⟩
  obtain ⟨saga, found, live, admitted⟩ : ∃ saga, record ledger.get id = some saga ∧ saga.status = .pending ∧
      (Lane.leasedTo [1]).admits saga = true := by
    have held : ∀ id ∈ [jobId, taskId], ∃ saga ∈ record ledger.get id, saga.status = .pending ∧
        (Lane.leasedTo [1]).admits saga = true := by decide +kernel
    exact held id listed
  exact ⟨_, (members _).mpr ⟨id, saga, found, live, admitted, rfl⟩, rfl⟩

end pages

end Ducktape.SagaModule
