import Mathlib.Data.Set.Card
import Ducktape.Modules.Saga

/-! # What the saga ledger's writers do

`Put` and `Removed` say what the two writers of the ledger do to every read of it, `Opened` what an accepted
trigger does. `Exact` is the exactness of the mirrors: the live shards, the terminal index, the live counts
and the spec chunks are what the records say. Each writer keeps it where the operations use it. -/

namespace Ducktape.SagaModule

open Lib Handler Function Std StagedStore ExtTreeMap

/-! ## Reads of a written store -/

section reads

variable (s : Store) {key : Key} (value : Option (Value key))

@[simp] theorem record_update_record (id : SagaId) (saga : Option Saga) :
    record (update s (.record id) saga) = update (record s) id saga := by
  funext other
  by_cases same : other = id
  · subst same
    simp [record]
  · simp [record, same]

@[simp] theorem record_update (other : ∀ id, Key.record id ≠ key) :
    record (update s key value) = record s :=
  funext fun id => update_of_ne (other id) ..

@[simp] theorem chunk_update (other : ∀ id n, Key.spec id n ≠ key) :
    chunk (update s key value) = chunk s := by
  funext id n
  exact update_of_ne (other id n) ..

@[simp] theorem pendingIn_update_pending (shard : Nat) (index : Option PendingIndex) :
    pendingIn (update s (.pending shard) index) = update (pendingIn s) shard (index.getD ∅) := by
  funext other
  by_cases same : other = shard
  · subst same
    simp [pendingIn]
  · simp [pendingIn, same]

@[simp] theorem pendingIn_update (other : ∀ shard, Key.pending shard ≠ key) :
    pendingIn (update s key value) = pendingIn s := by
  funext shard
  rw [pendingIn, update_of_ne (other shard), pendingIn]

@[simp] theorem terminalOf_update_terminal (index : Option TerminalIndex) :
    terminalOf (update s .terminal index) = index.getD ∅ := by
  simp [terminalOf]

@[simp] theorem terminalOf_update (other : Key.terminal ≠ key) :
    terminalOf (update s key value) = terminalOf s := by
  rw [terminalOf, update_of_ne other, terminalOf]

@[simp] theorem liveSagas_update_quota (origin : SagaOrigin) (live : Option Nat) :
    liveSagas (update s (.quota origin) live) = update (liveSagas s) origin (live.getD 0) := by
  funext other
  by_cases same : other = origin
  · subst same
    simp [liveSagas]
  · simp [liveSagas, same]

@[simp] theorem liveSagas_update (other : ∀ origin, Key.quota origin ≠ key) :
    liveSagas (update s key value) = liveSagas s := by
  funext origin
  rw [liveSagas, update_of_ne (other origin), liveSagas]

end reads

/-! ## The writers -/

section writers

variable {S : SagaModule} {ask : (q : Ask) → Answer q} {scratch after : Scratch Key Value} {id : SagaId}

/-- The run left this view and handed the host nothing. -/
structure Wrote (scratch after : Scratch Key Value) (s' : Store) : Prop where
  get : after.staged.get = s'
  out : after.out = scratch.out

theorem ends_stageIfChanged {key : Key} {value : Option (Value key)}
    (ends : Ends ask (stageIfChanged key value) scratch () after) :
    Wrote scratch after (update scratch.staged.get key value) := by
  simp only [stageIfChanged, ends_bind] at ends
  obtain ⟨_, _, ⟨rfl, rfl⟩, ends⟩ := ends
  split at ends
  · rename_i same
    obtain ⟨-, rfl⟩ := ends_pure.mp ends
    rw [← same, update_eq_self]
    exact ⟨rfl, rfl⟩
  · cases value with
    | some value =>
      obtain rfl := ends_stage.mp ends
      exact ⟨get_stage .., rfl⟩
    | none =>
      obtain rfl := ends_delete.mp ends
      exact ⟨get_delete .., rfl⟩

theorem ends_stageLiveCount {origin : SagaOrigin} {live : Nat}
    (ends : Ends ask (stageLiveCount origin live) scratch () after) :
    ∃ count : Option Nat, count.getD 0 = live ∧
      Wrote scratch after (update scratch.staged.get (.quota origin) count) := by
  refine ⟨_, ?_, ends_stageIfChanged ends⟩
  split
  · rfl
  · simp only [Option.getD_none]
    omega

theorem reads_checkRecord (value : Bytes) (what : String) :
    Handler.Reads (checkRecord value what) := .refuseIf _ _

/-- An index is written unless it is empty. -/
theorem ends_encoded {ι : Type} {index empty : ι} {isEmpty : Bool} {bytes : Bytes} {what : String}
    {written : Option ι} (unwritten : isEmpty = true → empty = index) (ends : Ends ask
      (if isEmpty then pure none else do checkRecord bytes what; pure (some index)) scratch written after) :
    written.getD empty = index ∧ after = scratch := by
  split at ends
  · rename_i nothing
    obtain ⟨rfl, rfl⟩ := ends_pure.mp ends
    exact ⟨unwritten nothing, rfl⟩
  · obtain ⟨_, _, checked, rest⟩ := ends_bind.mp ends
    obtain rfl := reads_checkRecord _ _ _ _ _ _ checked
    obtain ⟨rfl, rfl⟩ := ends_pure.mp rest
    exact ⟨rfl, rfl⟩

theorem ends_encodePending {pending : PendingIndex} {written : Option PendingIndex}
    (ends : Ends ask (S.encodePending pending) scratch written after) :
    written.getD ∅ = pending ∧ after = scratch :=
  ends_encoded (fun nothing => (isEmpty_iff.mp nothing).symm) ends

theorem ends_encodeTerminal {terminal : TerminalIndex} {written : Option TerminalIndex}
    (ends : Ends ask (S.encodeTerminal terminal) scratch written after) :
    written.getD ∅ = terminal ∧ after = scratch :=
  ends_encoded (fun nothing => (isEmpty_iff.mp nothing).symm) ends

/-- What `put` does to every read. An ending saga hands its slot back. -/
structure Put (S : SagaModule) (s s' : Store) (id : SagaId) (saga : Saga) : Prop where
  record : record s' = update (record s) id (some saga)
  chunk : chunk s' = chunk s
  pending : pendingIn s' = update (pendingIn s) (S.pendingShard id)
    (indexed id saga (pendingIn s (S.pendingShard id)) (terminalOf s)).1
  terminal : terminalOf s' = (indexed id saga (pendingIn s (S.pendingShard id)) (terminalOf s)).2
  live : saga.status.isTerminal = false → liveSagas s' = liveSagas s
  released : saga.status.isTerminal = true → 0 < liveSagas s saga.origin ∧
    liveSagas s' = update (liveSagas s) saga.origin (liveSagas s saga.origin - 1)

/-- What `remove` does to every read. -/
structure Removed (S : SagaModule) (s s' : Store) (id : SagaId) (saga : Saga) : Prop where
  record : record s' = update (record s) id none
  chunk : ∀ other n, chunk s' other n
    = if other = id ∧ n ∈ specChunks saga.specLen then none else chunk s other n
  pending : pendingIn s' = update (pendingIn s) (S.pendingShard id)
    ((pendingIn s (S.pendingShard id)).erase id)
  terminal : terminalOf s' = (terminalOf s).erase id
  live : liveSagas s' = liveSagas s

theorem ends_put {saga : Saga} (ends : Ends ask (S.put id saga) scratch () after) :
    Put S scratch.staged.get after.staged.get id saga ∧ after.out = scratch.out := by
  simp only [put, ends_bind] at ends
  obtain ⟨_, _, checked, _, _, ⟨rfl, rfl⟩, pendingRecord, _, encodes, terminalRecord, _, encodes',
    released, _, releases, _, _, stored, _, _, pends, _, _, terms, ends⟩ := ends
  obtain rfl := reads_checkRecord _ _ _ _ _ _ checked
  obtain ⟨pending, rfl⟩ := ends_encodePending encodes
  obtain ⟨terminal, rfl⟩ := ends_encodeTerminal encodes'
  have staged := ends_stage.mp stored
  obtain ⟨pended, pendOut⟩ := ends_stageIfChanged pends
  obtain ⟨termed, termOut⟩ := ends_stageIfChanged terms
  rw [← staged] at pended
  rw [pended] at termed
  split at releases
  · rename_i ending
    simp only [liveCountAfterRelease, ends_bind, ends_refuseIf] at releases
    obtain ⟨_, _, ⟨_, _, ⟨rfl, rfl⟩, _, _, ⟨some, rfl⟩, rfl, rfl⟩, rfl, rfl⟩ := releases
    obtain ⟨count, counts, wrote, out⟩ := ends_stageLiveCount ends
    rw [termed] at wrote
    refine ⟨?_, by rw [out, termOut, pendOut, ← staged]⟩
    rw [wrote]
    exact ⟨by simp [Lib.put], by simp [Lib.put], by simp [Lib.put, pending], by simp [terminal], by simp [ending],
      fun _ => ⟨by omega, by simp [Lib.put, counts]⟩⟩
  · rename_i live
    obtain ⟨rfl, rfl⟩ := ends_pure.mp releases
    obtain ⟨-, rfl⟩ := ends_pure.mp ends
    refine ⟨?_, by rw [termOut, pendOut, ← staged]⟩
    rw [termed]
    exact ⟨by simp [Lib.put], by simp [Lib.put], by simp [Lib.put, pending], by simp [terminal], by simp [Lib.put],
      by simp [live]⟩

theorem ends_deleteChunks {numbers : List Nat}
    (ends : Ends ask (deleteChunks id numbers) scratch () after) :
    (∀ key, after.staged.get key = if ∃ n ∈ numbers, key = .spec id n then none else scratch.staged.get key) ∧
      after.out = scratch.out := by
  induction numbers generalizing scratch with
  | nil =>
    obtain ⟨-, rfl⟩ := ends_pure.mp ends
    simp
  | cons n rest ih =>
    simp only [deleteChunks, ends_bind, ends_delete] at ends
    obtain ⟨_, _, rfl, ends⟩ := ends
    obtain ⟨view, out⟩ := ih ends
    refine ⟨fun key => ?_, out⟩
    rw [view]
    by_cases later : ∃ m ∈ rest, key = .spec id m
    · simp [later]
    by_cases first : key = .spec id n
    · subst first
      simp
    · simp [first]

theorem ends_stageChunks {spec : Bytes} {numbers : List Nat}
    (ends : Ends ask (stageChunks id spec numbers) scratch () after) :
    (∀ key, (∀ n, key ≠ .spec id n) → after.staged.get key = scratch.staged.get key) ∧
      (∀ n, chunk after.staged.get id n
        = if n ∈ numbers then some (chunkOf spec n) else chunk scratch.staged.get id n) ∧
      after.out = scratch.out := by
  induction numbers generalizing scratch with
  | nil =>
    obtain ⟨-, rfl⟩ := ends_pure.mp ends
    simp
  | cons n rest ih =>
    simp only [stageChunks, ends_bind, ends_stage] at ends
    obtain ⟨_, _, rfl, ends⟩ := ends
    obtain ⟨frame, chunks, out⟩ := ih ends
    refine ⟨fun key other => ?_, fun m => ?_, out⟩
    · rw [frame key other, get_stage, put_of_ne _ (other n)]
    · rw [chunks]
      by_cases later : m ∈ rest
      · simp [later]
      by_cases first : m = n
      · subst first
        simp [chunk]
      · simp [first, chunk]

theorem ends_remove {saga : Saga} (ends : Ends ask (S.remove id saga) scratch () after) :
    Removed S scratch.staged.get after.staged.get id saga ∧ after.out = scratch.out := by
  simp only [remove, ends_bind, ends_delete] at ends
  obtain ⟨_, m, drops, _, _, rfl, _, _, ⟨rfl, rfl⟩, pendingRecord, _, encodes, terminalRecord, _, encodes',
    _, _, pends, terms⟩ := ends
  obtain ⟨dropped, dropOut⟩ := ends_deleteChunks drops
  obtain ⟨pending, rfl⟩ := ends_encodePending encodes
  obtain ⟨terminal, rfl⟩ := ends_encodeTerminal encodes'
  obtain ⟨pended, pendOut⟩ := ends_stageIfChanged pends
  obtain ⟨termed, termOut⟩ := ends_stageIfChanged terms
  rw [get_delete] at pended pending terminal
  rw [pended] at termed
  have records : record m.staged.get = record scratch.staged.get := funext fun other => by
    rw [record, dropped, if_neg (by simp), record]
  have pendings : pendingIn m.staged.get = pendingIn scratch.staged.get := funext fun shard => by
    rw [pendingIn, dropped, if_neg (by simp), pendingIn]
  have terminals : terminalOf m.staged.get = terminalOf scratch.staged.get := by
    rw [terminalOf, dropped, if_neg (by simp), terminalOf]
  have lives : liveSagas m.staged.get = liveSagas scratch.staged.get := funext fun origin => by
    rw [liveSagas, dropped, if_neg (by simp), liveSagas]
  refine ⟨?_, by rw [termOut, pendOut, ← dropOut]⟩
  rw [termed]
  refine ⟨by simp [drop, records], fun other n => ?_, ?_, ?_, by simp [drop, lives]⟩
  · simp only [drop, ne_eq, reduceCtorEq, not_false_eq_true, implies_true, chunk_update]
    rw [chunk, dropped, chunk]
    simp only [Key.spec.injEq]
    by_cases named : other = id ∧ n ∈ specChunks saga.specLen
    · rw [if_pos ⟨n, named.2, named.1, rfl⟩, if_pos named]
    · rw [if_neg named, if_neg]
      rintro ⟨m, mem, rfl, rfl⟩
      exact named ⟨rfl, mem⟩
  · simp [drop, pending, pendings]
  · simp [drop, terminal, terminals]

end writers

/-! ## Exact mirrors -/

@[simp] theorem isTerminal_eq_false {status : SagaStatus} : status.isTerminal = false ↔ status = .pending := by
  cases status <;> simp [SagaStatus.isTerminal]

theorem isTerminal_eq_true {status : SagaStatus} : status.isTerminal = true ↔ status ≠ .pending := by
  cases status <;> simp [SagaStatus.isTerminal]

/-- The live sagas of an origin. -/
def liveIds (s : Store) (origin : SagaOrigin) : Set SagaId :=
  {id | ∃ saga, record s id = some saga ∧ saga.status = .pending ∧ saga.origin = origin}

/-- The mirrors say what the records say, with the specs the live and ended sagas were triggered with. -/
structure Exact (S : SagaModule) (specs : SagaId → Bytes) (s : Store) : Prop where
  pending : ∀ shard id row, (pendingIn s shard)[id]? = some row ↔ shard = S.pendingShard id ∧
    ∃ saga, record s id = some saga ∧ saga.status = .pending ∧ row = .of saga
  terminal : ∀ id entry, (terminalOf s)[id]? = some entry ↔
    ∃ saga, record s id = some saga ∧ saga.status ≠ .pending ∧ entry = .of saga
  live : ∀ origin, (liveIds s origin).encard = (liveSagas s origin : ℕ∞)
  capped : ∀ origin, liveSagas s origin ≤ liveSagaCap origin
  chunks : ∀ id n, chunk s id n = if (record s id).isSome ∧ n ∈ specChunks (specs id).length then
    some (chunkOf (specs id) n) else none
  specLen : ∀ id saga, record s id = some saga → saga.specLen = (specs id).length
  attempts : ∀ id saga, record s id = some saga → saga.attempt < saga.maxAttempts

/-- What a change of a record keeps: who owns it, whom it calls back, its spec; its attempt only goes up,
within its maximum. -/
structure Kept (old new : Saga) : Prop where
  origin : new.origin = old.origin
  replyTo : new.replyTo = old.replyTo
  replyPayload : new.replyPayload = old.replyPayload
  specLen : new.specLen = old.specLen
  maxAttempts : new.maxAttempts = old.maxAttempts
  attempt : old.attempt ≤ new.attempt
  within : old.attempt < old.maxAttempts → new.attempt < new.maxAttempts

section exact

variable {S : SagaModule} {specs : SagaId → Bytes} {s s' : Store} {id : SagaId} {old new : Saga}
  {now : Option Saga}

/-- Nothing is recorded before the first trigger. -/
theorem exact_empty (S : SagaModule) (specs : SagaId → Bytes) : Exact S specs fun _ => none where
  pending shard id row := by simp [pendingIn, record]
  terminal id entry := by simp [terminalOf, record]
  live origin := by
    have none : liveIds (fun _ => none) origin = ∅ := by
      simp [liveIds, record]
    rw [none, Set.encard_empty]
    rfl
  capped origin := Nat.zero_le _
  chunks id n := by simp [chunk, record]
  specLen id saga found := by cases found
  attempts id saga found := by cases found

/-- The live rows after a record is put: its shard's row is set or erased. -/
theorem pending_of_update (exact : Exact S specs s) {index : PendingIndex}
    (records : record s' = update (record s) id now)
    (shards : pendingIn s' = update (pendingIn s) (S.pendingShard id) index)
    (others : ∀ other, other ≠ id → index[other]? = (pendingIn s (S.pendingShard id))[other]?)
    (row : ∀ row, index[id]? = some row ↔ ∃ saga, now = some saga ∧ saga.status = .pending ∧ row = .of saga) :
    ∀ shard other row, (pendingIn s' shard)[other]? = some row ↔ shard = S.pendingShard other ∧
      ∃ saga, record s' other = some saga ∧ saga.status = .pending ∧ row = .of saga := by
  intro shard other found
  rw [records, shards]
  by_cases same : other = id
  · subst same
    by_cases own : shard = S.pendingShard other
    · subst own
      rw [update_self, row]
      simp
    · rw [update_of_ne own, exact.pending]
      simp [own]
  · rw [update_of_ne same]
    by_cases own : shard = S.pendingShard id
    · subst own
      rw [update_self, others other same, exact.pending]
    · rw [update_of_ne own, exact.pending]

/-- The terminal rows after a record is put. -/
theorem terminal_of_update (exact : Exact S specs s)
    (records : record s' = update (record s) id now)
    (others : ∀ other, other ≠ id → (terminalOf s')[other]? = (terminalOf s)[other]?)
    (row : ∀ entry, (terminalOf s')[id]? = some entry ↔
      ∃ saga, now = some saga ∧ saga.status ≠ .pending ∧ entry = .of saga) :
    ∀ other entry, (terminalOf s')[other]? = some entry ↔
      ∃ saga, record s' other = some saga ∧ saga.status ≠ .pending ∧ entry = .of saga := by
  intro other entry
  rw [records]
  by_cases same : other = id
  · subst same
    rw [row, update_self]
  · rw [others other same, exact.terminal, update_of_ne same]

/-- The slot a record takes of an origin's. -/
def occupies (saga : Option Saga) (origin : SagaOrigin) : Nat :=
  if ∃ saga' ∈ saga, saga'.status = .pending ∧ saga'.origin = origin then 1 else 0

/-- The live sagas are counted right after one record is set, if its slot is. -/
theorem live_of_update (exact : Exact S specs s) (records : record s' = update (record s) id now)
    (slots : ∀ origin, liveSagas s' origin + occupies (record s id) origin
      = liveSagas s origin + occupies now origin) (origin : SagaOrigin) :
    (liveIds s' origin).encard = (liveSagas s' origin : ℕ∞) := by
  have part : ∀ s : Store, (liveIds s origin).encard
      = (liveIds s origin \ {id}).encard + (occupies (record s id) origin) := by
    intro s
    by_cases mem : id ∈ liveIds s origin
    · have one : occupies (record s id) origin = 1 := if_pos mem
      rw [one, ← Set.encard_sdiff_singleton_add_one mem]
      rfl
    · have zero : occupies (record s id) origin = 0 := if_neg mem
      rw [zero, Set.sdiff_singleton_eq_self mem, Nat.cast_zero, add_zero]
  have others : liveIds s' origin \ {id} = liveIds s origin \ {id} := by
    ext other
    simp only [Set.mem_sdiff, Set.mem_singleton_iff, and_congr_left_iff]
    intro apart
    simp [liveIds, records, apart]
  have before := exact.live origin
  have sum := congrArg (Nat.cast : ℕ → ℕ∞) (slots origin)
  rw [part] at before
  rw [Nat.cast_add, Nat.cast_add, ← before, add_right_comm] at sum
  rw [part, others, records, update_self]
  exact (ENat.add_left_injective_of_ne_top (ENat.natCast_ne_top _) sum).symm

theorem forall_update {P : SagaId → Saga → Prop}
    (sound : ∀ id saga, record s id = some saga → P id saga)
    (records : record s' = update (record s) id now)
    (here : ∀ saga, now = some saga → P id saga) : ∀ id saga, record s' id = some saga → P id saga := by
  intro other saga found
  rw [records] at found
  by_cases same : other = id
  · subst same
    rw [update_self] at found
    exact here saga found
  · rw [update_of_ne same] at found
    exact sound other saga found

/-- The chunks after a record is put in place of another one. -/
theorem chunks_of_put (exact : Exact S specs s) (found : record s id = some old)
    (records : record s' = update (record s) id (some new)) (chunks : chunk s' = chunk s) :
    ∀ other n, chunk s' other n = if (record s' other).isSome ∧ n ∈ specChunks (specs other).length then
      some (chunkOf (specs other) n) else none := by
  intro other n
  have present : (record s' other).isSome = (record s other).isSome := by
    rw [records]
    by_cases same : other = id
    · rw [same, update_self, found]
      rfl
    · rw [update_of_ne same]
  rw [chunks, exact.chunks, present]

/-- A live saga is changed or ended; an ending one hands its slot back. -/
theorem Exact.put (exact : Exact S specs s) (found : record s id = some old) (live : old.status = .pending)
    (kept : Kept old new) (put : Put S s s' id new) : Exact S specs s' := by
  have index := put.pending
  have terminals := put.terminal
  refine ⟨pending_of_update exact put.record index ?_ ?_, terminal_of_update exact put.record ?_ ?_,
    live_of_update exact put.record fun other => ?_, fun other => ?_,
    chunks_of_put exact found put.record put.chunk, forall_update exact.specLen put.record ?_,
    forall_update exact.attempts put.record ?_⟩
  · intro other apart
    simp only [indexed]
    split <;> simp [getElem?_insert, getElem?_erase, apart.symm]
  · intro row
    cases ending : new.status.isTerminal with
    | false => simp [indexed, isTerminal_eq_false.mp ending, SagaStatus.isTerminal, @eq_comm _ row]
    | true => simp [indexed, ending, isTerminal_eq_true.mp ending]
  · intro other apart
    rw [terminals, indexed]
    split <;> simp [getElem?_insert, getElem?_erase, apart.symm]
  · intro entry
    cases ending : new.status.isTerminal with
    | false => simp [terminals, indexed, isTerminal_eq_false.mp ending, SagaStatus.isTerminal]
    | true => simp [terminals, indexed, ending, isTerminal_eq_true.mp ending, @eq_comm _ entry]
  · cases ending : new.status.isTerminal with
    | false => simp [occupies, found, live, isTerminal_eq_false.mp ending, put.live ending, kept.origin]
    | true =>
      obtain ⟨some, released⟩ := put.released ending
      rw [kept.origin] at some released
      rw [released, found]
      by_cases own : other = old.origin
      · simp only [own, update_self, occupies, Option.mem_some_iff, exists_eq_left', live,
          isTerminal_eq_true.mp ending, and_self, if_true, false_and, if_false]
        omega
      · simp [own, occupies, Ne.symm own, isTerminal_eq_true.mp ending]
  · have cap := exact.capped other
    cases ending : new.status.isTerminal with
    | false => rwa [put.live ending]
    | true =>
      rw [(put.released ending).2, update_apply]
      split <;> grind
  · rintro saga ⟨⟩
    rw [kept.specLen]
    exact exact.specLen id old found
  · rintro saga ⟨⟩
    exact kept.within (exact.attempts id old found)

/-- An ended saga is removed. -/
theorem Exact.removed (exact : Exact S specs s) (found : record s id = some old) (ended : old.status ≠ .pending)
    (removed : Removed S s s' id old) : Exact S specs s' := by
  refine ⟨pending_of_update exact removed.record removed.pending ?_ ?_,
    terminal_of_update exact removed.record ?_ ?_, ?_, ?_, ?_,
    forall_update exact.specLen removed.record (by simp), forall_update exact.attempts removed.record (by simp)⟩
  · intro other apart
    rw [getElem?_erase, if_neg (by simpa using Ne.symm apart)]
  · simp
  · intro other apart
    rw [removed.terminal, getElem?_erase, if_neg (by simpa using Ne.symm apart)]
  · simp [removed.terminal]
  · exact live_of_update exact removed.record fun origin => by simp [occupies, found, ended, removed.live]
  · rw [removed.live]
    exact exact.capped
  · intro other n
    rw [removed.chunk, removed.record, exact.specLen id old found, exact.chunks]
    by_cases same : other = id
    · subst same
      by_cases inside : n ∈ specChunks (specs other).length <;> simp [inside]
    · simp [same]

/-- What an accepted trigger of a new id does. -/
structure Opened (S : SagaModule) (s s' : Store) (id : SagaId) (saga : Saga) (spec : Bytes) : Prop where
  fresh : SagaModule.record s id = none
  status : saga.status = .pending
  attempt : saga.attempt < saga.maxAttempts
  specLen : saga.specLen = spec.length
  room : liveSagas s saga.origin < liveSagaCap saga.origin
  record : SagaModule.record s' = update (SagaModule.record s) id (some saga)
  chunk : ∀ other n, SagaModule.chunk s' other n
    = if other = id ∧ n ∈ specChunks spec.length then some (chunkOf spec n) else SagaModule.chunk s other n
  pending : pendingIn s' = update (pendingIn s) (S.pendingShard id)
    ((pendingIn s (S.pendingShard id)).insert id (.of saga))
  terminal : terminalOf s' = (terminalOf s).erase id
  live : liveSagas s' = update (liveSagas s) saga.origin (liveSagas s saga.origin + 1)

/-- A saga is opened: its origin takes a slot, its spec is remembered. -/
theorem Exact.opened (exact : Exact S specs s) {spec : Bytes} (opened : Opened S s s' id new spec) :
    Exact S (update specs id spec) s' := by
  have apart : ∀ other saga, SagaModule.record s other = some saga → other ≠ id := by
    rintro other saga found rfl
    rw [opened.fresh] at found
    cases found
  refine ⟨pending_of_update exact opened.record opened.pending ?_ ?_,
    terminal_of_update exact opened.record ?_ ?_, ?_, ?_, ?_,
    forall_update (fun other saga found => ?_) opened.record ?_,
    forall_update exact.attempts opened.record ?_⟩
  · intro other apart
    rw [getElem?_insert, if_neg (by simpa using Ne.symm apart)]
  · simp [opened.status, eq_comm]
  · intro other apart
    rw [opened.terminal, getElem?_erase, if_neg (by simpa using Ne.symm apart)]
  · simp [opened.terminal, opened.status]
  · refine live_of_update exact opened.record fun origin => ?_
    rw [opened.live, opened.fresh]
    by_cases own : origin = new.origin
    · simp [own, occupies, opened.status]
    · simp [own, Ne.symm own, occupies]
  · intro origin
    rw [opened.live]
    by_cases own : origin = new.origin
    · subst own
      rw [update_self]
      exact opened.room
    · rw [update_of_ne own]
      exact exact.capped origin
  · intro other n
    rw [opened.chunk, opened.record]
    by_cases same : other = id
    · subst same
      simp only [update_self, Option.isSome_some]
      split
      · rfl
      · rw [exact.chunks, opened.fresh]
        simp
    · simp [same, exact.chunks]
  · rw [update_of_ne (apart other saga found)]
    exact exact.specLen other saga found
  · rintro saga ⟨⟩
    rw [update_self]
    exact opened.specLen
  · rintro saga ⟨⟩
    exact opened.attempt

end exact

end Ducktape.SagaModule
