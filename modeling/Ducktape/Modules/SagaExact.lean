import Ducktape.Host.Isolation
import Ducktape.Modules.SagaMoves

/-! # The exact mirrors of the saga ledger

The trim keeps the newest receipts within its budgets (`evicted_trim`), so every accepted operation is an
opening or moves, and then removals (`executeMsg_effect`). From this the mirrors are exact in every state that
operations, commits and aborts lead to (`reachable_mirrored`). -/

namespace Ducktape.SagaModule

open Lib Handler List Invocation Std.ExtTreeMap Prod Borsh.Format

/-! ## Retention -/

/-- The receipts, newest first: the order the trim evicts from the end of. -/
def ranked (terminal : TerminalIndex) : List (SagaId × TerminalEntry) := terminal.toList.mergeSort newer

section retention

variable {terminal : TerminalIndex} {receipts : List (SagaId × TerminalEntry)} {kept keptBytes : Nat}

/-- Receipts are kept up to the first that is over a budget. -/
theorem overBudget_split (kept keptBytes : Nat) (receipts : List (SagaId × TerminalEntry)) :
    ∃ first rest, receipts = first ++ rest ∧ overBudget kept keptBytes receipts = rest.map fst ∧
      overBudget kept keptBytes first = [] := by
  induction receipts generalizing kept keptBytes with
  | nil => exact ⟨[], [], rfl, rfl, rfl⟩
  | cons receipt receipts ih =>
    obtain ⟨id, entry⟩ := receipt
    rw [overBudget]
    split
    · rename_i within
      obtain ⟨first, rest, rfl, evicted, fits⟩ := ih (kept + 1) (min (keptBytes + entry.bytes) u64Max)
      exact ⟨(id, entry) :: first, rest, rfl, evicted, by rw [overBudget, if_pos within, fits]⟩
    · rename_i spends
      -- A budget that is spent stays spent: nothing after this one is kept.
      have spent : ∀ rest : List (SagaId × TerminalEntry),
          overBudget kept keptBytes rest = rest.map fst := by
        intro rest
        induction rest with
        | nil => rfl
        | cons next rest ih => rw [overBudget, if_neg spends, ih, map_cons]
      exact ⟨[], (id, entry) :: receipts, rfl, by rw [spent, map_cons], rfl⟩

/-- Receipts that are all kept are within both budgets; the byte budget is checked before the last one is
added. -/
theorem overBudget_eq_nil (none : overBudget kept keptBytes receipts = []) (start : kept ≤ maxRetainedTerminal) :
    kept + receipts.length ≤ maxRetainedTerminal ∧ (receipts ≠ [] →
      keptBytes + (receipts.dropLast.map (·.2.bytes)).sum ≤ maxRetainedTerminalBytes) := by
  induction receipts generalizing kept keptBytes with
  | nil => simpa using start
  | cons receipt receipts ih =>
    rw [overBudget] at none
    split at none
    · rename_i within
      obtain ⟨count, bytes⟩ := ih none within.1
      refine ⟨by simp only [length_cons]; omega, fun _ => ?_⟩
      rcases eq_or_ne receipts [] with rfl | more
      · exact within.2
      have later := bytes more
      have room : maxRetainedTerminalBytes < u64Max := by decide
      simp only [dropLast_cons_of_ne_nil more, map_cons, sum_cons]
      omega
    · cases none

theorem newer_trans (a b c : SagaId × TerminalEntry) (ab : newer a b = true) (bc : newer b c = true) :
    newer a c = true := by
  simp only [newer, decide_eq_true_eq] at ab bc ⊢
  rcases ab with ab | ⟨ab, ids⟩ <;> rcases bc with bc | ⟨bc, ids'⟩
  · exact .inl (bc.trans ab)
  · exact .inl (bc ▸ ab)
  · exact .inl (ab ▸ bc)
  · exact .inr ⟨ab.trans bc, String.le_trans ids' ids⟩

theorem newer_total (a b : SagaId × TerminalEntry) : (newer a b || newer b a) = true := by
  simp only [newer, Bool.or_eq_true, decide_eq_true_eq]
  rcases lt_trichotomy a.2.updatedAt b.2.updatedAt with before | same | after
  · exact .inr (.inl before)
  · exact (String.le_total b.1 a.1).elim (fun le => .inl (.inr ⟨same, le⟩)) fun le => .inr (.inr ⟨same.symm, le⟩)
  · exact .inl (.inl after)

theorem newer_antisymm {a b : SagaId × TerminalEntry} (ab : newer a b = true) (ba : newer b a = true) :
    a.1 = b.1 := by
  simp only [newer, decide_eq_true_eq] at ab ba
  rcases ab with ab | ⟨same, ids⟩
  · omega
  · rcases ba with ba | ⟨-, ids'⟩
    · omega
    · exact String.le_antisymm ids' ids

theorem pairwise_ranked (terminal : TerminalIndex) : (ranked terminal).Pairwise (newer · · = true) :=
  pairwise_mergeSort newer_trans newer_total _

theorem mem_ranked {id : SagaId} {entry : TerminalEntry} :
    (id, entry) ∈ ranked terminal ↔ terminal[id]? = some entry := by
  rw [ranked, mem_mergeSort, mem_toList_iff_getElem?_eq_some]

theorem ranked_nodup (terminal : TerminalIndex) : ((ranked terminal).map fst).Nodup := by
  rw [ranked, ((mergeSort_perm _ _).map _).nodup_iff, map_fst_toList_eq_keys]
  exact nodup_keys

theorem length_ranked (terminal : TerminalIndex) : (ranked terminal).length = terminal.size := by
  rw [ranked, length_mergeSort, length_toList]

/-- Removing the last receipts leaves the first, in the same order. -/
theorem ranked_of_removed {terminal' : TerminalIndex} {first rest : List (SagaId × TerminalEntry)}
    (split : ranked terminal = first ++ rest)
    (left : ∀ id, terminal'[id]? = if id ∈ rest.map fst then none else terminal[id]?) :
    ranked terminal' = first := by
  have distinct := ranked_nodup terminal
  rw [split, map_append, nodup_append] at distinct
  obtain ⟨firsts, -, apart⟩ := distinct
  have mem : ∀ receipt, receipt ∈ ranked terminal' ↔ receipt ∈ first := by
    rintro ⟨id, entry⟩
    rw [mem_ranked, left]
    constructor
    · intro found
      split at found
      · cases found
      rename_i stays
      have listed := mem_ranked.mpr found
      rw [split, mem_append] at listed
      exact listed.resolve_right fun mem => stays (mem_map_of_mem mem)
    · intro listed
      have stays : id ∉ rest.map fst := fun mem => apart id (mem_map_of_mem listed) id mem rfl
      rw [if_neg stays, ← mem_ranked, split]
      exact mem_append_left _ listed
  have perm : (ranked terminal').Perm first :=
    (perm_ext_iff_of_nodup (ranked_nodup terminal').of_map firsts.of_map).mpr mem
  have sorted := pairwise_ranked terminal
  rw [split] at sorted
  refine perm.eq_of_pairwise ?_ (pairwise_ranked terminal') (pairwise_append.mp sorted).1
  intro a b here there ab ba
  -- Receipts that rank the same are those of one id.
  have same := newer_antisymm ab ba
  have a := mem_ranked.mp here
  have b := mem_ranked.mp ((mem b).mpr there)
  rw [same, b, Option.some_inj] at a
  exact Prod.ext same a.symm

end retention

/-! ## The trim -/

/-- The receipts are within their budgets: the trim has nothing to evict. -/
def Trimmed (s : Store) : Prop := terminalEvictions (terminalOf s) = []

/-- The run removed these sagas and no other, and emitted no callback. -/
structure Evicted (S : SagaModule) (scratch after : Scratch Key Value) (ids : List SagaId) : Prop where
  did : Did S scratch after []
  records : ∀ id, record after.staged.get id = if id ∈ ids then none else record scratch.staged.get id
  receipts : ∀ id, (terminalOf after.staged.get)[id]?
    = if id ∈ ids then none else (terminalOf scratch.staged.get)[id]?
  ended : ∀ id ∈ ids, ∀ saga, record scratch.staged.get id = some saga → saga.status ≠ .pending

section trim

variable {S : SagaModule} {specs : SagaId → Bytes} {ask : (q : Ask) → Answer q} {env : Env}
  {scratch after : Scratch Key Value} {ids : List SagaId}

theorem evicted_evictAll (distinct : ids.Nodup)
    (ended : ∀ id ∈ ids, ∀ saga, record scratch.staged.get id = some saga → saga.status ≠ .pending)
    (ends : Ends ask (S.evictAll ids) scratch () after) : Evicted S scratch after ids := by
  induction ids generalizing scratch with
  | nil =>
    obtain ⟨-, rfl⟩ := ends_pure.mp ends
    exact ⟨.refl _, by simp, by simp, ended⟩
  | cons id rest ih =>
    simp only [evictAll, requireSaga, ends_bind, ends_require] at ends
    obtain ⟨saga, _, ⟨_, _, ⟨rfl, rfl⟩, found, rfl⟩, _, m, removes, others⟩ := ends
    obtain ⟨removed, out⟩ := ends_remove removes
    obtain ⟨apart, distinct⟩ := nodup_cons.mp distinct
    have first : Move S id _ [] m.staged.get := .removed found (ended id mem_cons_self saga found) removed
    obtain ⟨did, records, receipts, -⟩ := ih distinct (fun other mem saga found => by
      rw [first.frame fun same => apart (same ▸ mem)] at found
      exact ended other (mem_cons_of_mem _ mem) saga found) others
    refine ⟨(DidOne.did ⟨first, by simp [out]⟩).trans did, fun other => ?_, fun other => ?_, ended⟩
    · rw [records, removed.record]
      by_cases same : other = id
      · simp [same]
      · simp [same]
    · rw [receipts, removed.terminal, getElem?_erase]
      by_cases same : other = id
      · simp [same]
      · simp [same, Ne.symm same]

/-- A live saga is not evicted. -/
theorem Evicted.live (evicted : Evicted S scratch after ids) {id : SagaId} {saga : Saga}
    (found : record scratch.staged.get id = some saga) (live : saga.status = .pending) :
    record after.staged.get id = some saga := by
  rw [evicted.records, if_neg fun mem => evicted.ended id mem saga found live, found]

/-- The trim removes the oldest receipts and leaves those within the budgets. -/
theorem evicted_trim (exact : Exact S specs scratch.staged.get)
    (ends : Ends ask S.trim scratch () after) :
    Evicted S scratch after (terminalEvictions (terminalOf scratch.staged.get)) ∧
      Trimmed after.staged.get := by
  simp only [trim, ends_bind] at ends
  obtain ⟨_, _, ⟨rfl, rfl⟩, ends⟩ := ends
  obtain ⟨first, rest, split, evicts, fits⟩ := overBudget_split 0 0 (ranked (terminalOf scratch.staged.get))
  have ids : terminalEvictions (terminalOf scratch.staged.get) = rest.map fst := evicts
  have distinct := ranked_nodup (terminalOf scratch.staged.get)
  rw [split, map_append, nodup_append] at distinct
  rw [ids] at ends ⊢
  have evicted := evicted_evictAll distinct.2.1 (fun id mem saga found => by
    obtain ⟨⟨id, entry⟩, listed, rfl⟩ := mem_map.mp mem
    have ranks : (id, entry) ∈ ranked (terminalOf scratch.staged.get) := by
      rw [split]
      exact mem_append_right _ listed
    obtain ⟨saga', found', ended, -⟩ := (exact.terminal id entry).mp (mem_ranked.mp ranks)
    rw [found, Option.some_inj] at found'
    rw [found']
    exact ended) ends
  refine ⟨evicted, ?_⟩
  show overBudget 0 0 (ranked (terminalOf after.staged.get)) = []
  rw [ranked_of_removed split evicted.receipts, fits]

/-- A trim of receipts within the budgets does nothing. -/
theorem idle_trim (trimmed : Trimmed scratch.staged.get) (ends : Ends ask S.trim scratch () after) :
    after = scratch := by
  simp only [trim, ends_bind] at ends
  obtain ⟨_, _, ⟨rfl, rfl⟩, ends⟩ := ends
  rw [show terminalEvictions (terminalOf scratch.staged.get) = [] from trimmed] at ends
  exact (ends_pure.mp ends).2.symm

/-! ## Whole operations -/

/-- The id and the spec an accepted message opens: a trigger of an id with no record. -/
def opening (s : Store) : SagaMsg → Option (SagaId × Bytes)
  | .trigger id spec .. => if (record s id).isNone then some (id, spec) else none
  | _ => none

/-- A handled message makes moves, or opens a saga. -/
theorem handle_cases {msg : SagaMsg} (exact : Exact S specs scratch.staged.get)
    (ends : Ends ask (S.handle env msg) scratch () after) :
    (opening scratch.staged.get msg = none ∧ ∃ calls, Did S scratch after calls) ∨
      ∃ id spec saga, opening scratch.staged.get msg = some (id, spec) ∧
        Opened S scratch.staged.get after.staged.get id saga spec ∧
        after.out.emitted = scratch.out.emitted := by
  cases msg with
  | trigger id spec =>
    rcases ends_trigger ends with ⟨rfl, known⟩ | ⟨saga, opened, -, -, emitted⟩
    · exact .inl ⟨by simp [opening, Option.isSome_iff_ne_none.mp known], [], .refl _⟩
    · exact .inr ⟨id, spec, saga, by simp [opening, opened.fresh], opened, emitted⟩
  | oracleResult => exact .inl ⟨rfl, (did_oracleResult ends).1⟩
  | renewLease => exact .inl ⟨rfl, _, did_renewLease ends⟩
  | reassign => exact .inl ⟨rfl, _, did_reassign ends⟩
  | accept => exact .inl ⟨rfl, _, did_accept ends⟩
  | crank => exact .inl ⟨rfl, did_crank exact ends⟩
  | cancel =>
    obtain ⟨calls, did, -⟩ := did_cancel ends
    exact .inl ⟨rfl, calls, did⟩
  | prune =>
    simp only [handle, handlePrune, ends_bind, ends_ofExcept] at ends
    obtain ⟨_, _, ⟨-, rfl⟩, ends⟩ := ends
    exact .inl ⟨rfl, _, (did_pruneAll ends).1⟩

end trim

/-! ### Operations only stage

A `do` block is taken apart at its binds and branches; the leaves are the calls whose lemma is in the simp set. -/

section stages

variable (S : SagaModule) (env : Env) (id : SagaId) (saga : Saga)

attribute [local simp] reads_checkRecord reads_loadSpec reads_computeAssigneeExcluding reads_checkTrigger
  reads_checkReplyTo reads_requireAcceptStanding reads_checkError

@[local simp] theorem stages_encodePending (pending : PendingIndex) : Handler.Stages (S.encodePending pending) :=
  fun _ _ _ _ ends => by rw [(ends_encodePending ends).2]

@[local simp] theorem stages_encodeTerminal (terminal : TerminalIndex) :
    Handler.Stages (S.encodeTerminal terminal) :=
  fun _ _ _ _ ends => by rw [(ends_encodeTerminal ends).2]

@[local simp] theorem stages_stageIfChanged (key : Key) (value : Option (Value key)) :
    Handler.Stages (stageIfChanged key value) := by
  repeat' first | simp | refine .bind ?_ fun _ => ?_ | split

@[local simp] theorem stages_put : Handler.Stages (S.put id saga) := by
  repeat' first | (simp; done) | refine .bind ?_ fun _ => ?_ | split

@[local simp] theorem stages_deleteChunks (numbers : List Nat) : Handler.Stages (deleteChunks id numbers) := by
  induction numbers with
  | nil => exact .pure _
  | cons n rest ih => exact .bind (.delete _) fun _ => ih

@[local simp] theorem stages_stageChunks (spec : Bytes) (numbers : List Nat) :
    Handler.Stages (stageChunks id spec numbers) := by
  induction numbers with
  | nil => exact .pure _
  | cons n rest ih => exact .bind (.stage _ _) fun _ => ih

@[local simp] theorem stages_remove : Handler.Stages (S.remove id saga) := by
  repeat' first | (simp; done) | refine .bind ?_ fun _ => ?_

@[local simp] theorem stages_finish (outcome : SagaOutcome) : Handler.Stages (S.finish id saga outcome) := by
  refine .bind ?_ fun _ => stages_put S id saga
  unfold emitCallback
  split <;> simp

@[local simp] theorem stages_cancelAttempt (attempt : Nat) (assignee : Option Bytes) :
    Handler.Stages (S.cancelAttempt id attempt assignee) := by
  unfold cancelAttempt
  split <;> simp

@[local simp] theorem stages_emitRequest (spec : Bytes) : Handler.Stages (S.emitRequest id saga spec) :=
  (Handler.Unstaged.emitEvent _).stages

@[local simp] theorem stages_requestAssigned (spec : Bytes) (assignee : Option Bytes) :
    Handler.Stages (S.requestAssigned env id saga spec assignee) :=
  .bind (stages_put S _ _) fun _ => stages_emitRequest S _ _ _

@[local simp] theorem stages_leaseAndRequestExcluding (spec : Bytes) (excluded : Option Bytes) :
    Handler.Stages (S.leaseAndRequestExcluding env id saga spec excluded) := by
  repeat' first | simp | refine .bind ?_ fun _ => ?_ | split

@[local simp] theorem stages_landResult (outcome : Except String Bytes) :
    Handler.Stages (S.landResult env id saga outcome) := by
  unfold landResult
  repeat' first | (simp; done) | split | refine .bind ?_ fun _ => ?_

@[local simp] theorem stages_crankAll (ids : List SagaId) : Handler.Stages (S.crankAll env ids) := by
  induction ids with
  | nil => exact .pure _
  | cons id rest ih =>
    refine .bind (.bind (.bind (by simp) fun _ => by simp) fun saga => ?_) fun _ => ih
    dsimp only
    repeat' first | (simp; done) | split | refine .bind ?_ fun _ => ?_

@[local simp] theorem stages_pruneAll (origin : SagaOrigin) (ids : List SagaId) :
    Handler.Stages (S.pruneAll origin ids) := by
  induction ids with
  | nil => exact .pure _
  | cons id rest ih => repeat' first | assumption | simp | split | refine .bind ?_ fun _ => ?_

@[local simp] theorem stages_evictAll (ids : List SagaId) : Handler.Stages (S.evictAll ids) := by
  induction ids with
  | nil => exact .pure _
  | cons id rest ih => repeat' first | assumption | simp | refine .bind ?_ fun _ => ?_

@[local simp] theorem stages_handle (msg : SagaMsg) : Handler.Stages (S.handle env msg) := by
  cases msg <;> repeat' first | (simp; done) | split | refine .bind ?_ fun _ => ?_

theorem stages_execute (msg : Msg) : Handler.Stages (S.execute env msg) := by
  unfold execute
  repeat' first | simp | split | refine .bind ?_ fun _ => ?_

end stages

/-! ### Effects -/

/-- What an accepted message did: it opened a saga and then removed receipts, or it made moves. -/
inductive Effect (S : SagaModule) (s : Store) (msg : SagaMsg) : List Call → Store → Prop
  | opened {id spec saga m s'} (opens : opening s msg = some (id, spec)) (opened : Opened S s m id saga spec)
      (trims : Moves S m [] s') (stays : record s' id = some saga) : Effect S s msg [] s'
  | moved {calls s'} (opens : opening s msg = none) (moves : Moves S s calls s') : Effect S s msg calls s'

/-- The specs with the one an accepted message opens. -/
def remember (s : Store) (msg : SagaMsg) (specs : SagaId → Bytes) : SagaId → Bytes :=
  match opening s msg with
  | some (id, spec) => Function.update specs id spec
  | none => specs

section effects

variable {S : SagaModule} {specs : SagaId → Bytes} {ask : (q : Ask) → Answer q} {env : Env} {msg : SagaMsg}
  {scratch after : Scratch Key Value} {s s' : Store} {calls : List Call}

theorem executeMsg_effect (exact : Exact S specs scratch.staged.get)
    (ends : Ends ask (S.executeMsg env msg) scratch () after) :
    Trimmed after.staged.get ∧ ∃ calls, Effect S scratch.staged.get msg calls after.staged.get ∧
      after.out.emitted = scratch.out.emitted ++ S.messages calls := by
  obtain ⟨_, m, handles, trims⟩ := ends_bind.mp ends
  rcases handle_cases exact handles with ⟨opens, calls, did⟩ | ⟨id, spec, saga, opens, opened, silent⟩
  · obtain ⟨evicted, trimmed⟩ := evicted_trim (did.moves.exact exact) trims
    have whole := did.trans evicted.did
    rw [append_nil] at whole
    exact ⟨trimmed, calls, .moved opens whole.moves, whole.emitted⟩
  · obtain ⟨evicted, trimmed⟩ := evicted_trim (exact.opened opened) trims
    have stays := evicted.live (by rw [opened.record, Function.update_self]) opened.status
    exact ⟨trimmed, [], .opened opens opened evicted.did.moves stays, by rw [evicted.did.emitted, silent]⟩

theorem Effect.exact (effect : Effect S s msg calls s') (exact : Exact S specs s) :
    Exact S (remember s msg specs) s' := by
  cases effect with
  | opened opens opened trims _ =>
    rw [remember, opens]
    exact trims.exact (exact.opened opened)
  | moved opens moves =>
    rw [remember, opens]
    exact moves.exact exact

end effects

/-! ## Runs -/

/-- One accepted message, with the ledger before and after it and what it emitted. -/
structure Step where
  before : Store
  env : Env
  msg : SagaMsg
  emitted : List Msg
  after : Store

/-- The step of a call, if it is accepted. -/
def stepOf (S : SagaModule) (call : Invocation Msg) (staged : StagedStore Key Value) : List Step :=
  match call.accepted S.execute staged, S.sagaWire.sagaMsg.decode call.msg.payload with
  | some (staged', out), .ok msg => [⟨staged.get, call.env, msg, out.emitted, staged'.get⟩]
  | _, _ => []

/-- The states that calls, commits and aborts lead to, with the accepted messages of the blocks that were not
aborted, and those of the committed blocks. A refused call leaves nothing. -/
inductive Reachable (S : SagaModule) : StagedStore Key Value → List Step → List Step → Prop
  | genesis : Reachable S (.new fun _ => none) [] []
  | call {staged steps base} (call : Invocation Msg) : Reachable S staged steps base →
      Reachable S (call.settle S.execute staged) (steps ++ S.stepOf call staged) base
  | commit {staged steps base} : Reachable S staged steps base → Reachable S staged.commit steps steps
  | abort {staged steps base} : Reachable S staged steps base → Reachable S staged.abort base base

/-- The spec each id was last opened with. -/
def specsOf (steps : List Step) : SagaId → Bytes :=
  steps.foldl (fun specs step => remember step.before step.msg specs) fun _ => []

@[simp] theorem specsOf_snoc (steps : List Step) (step : Step) :
    specsOf (steps ++ [step]) = remember step.before step.msg (specsOf steps) := by
  rw [specsOf, foldl_append]
  rfl

/-- What every accepted step keeps. -/
structure Sound (S : SagaModule) (specs : SagaId → Bytes) (s : Store) : Prop where
  exact : Exact S specs s
  trimmed : Trimmed s

section runs

variable {S : SagaModule} {specs : SagaId → Bytes} {staged : StagedStore Key Value} {steps base : List Step}

/-- A call changes nothing, or is an accepted message with its effect. -/
theorem call_cases (call : Invocation Msg) (sound : Sound S specs staged.get) :
    (call.settle S.execute staged = staged ∧ S.stepOf call staged = []) ∨
      ∃ msg out calls, S.stepOf call staged
          = [⟨staged.get, call.env, msg, S.messages calls, (call.settle S.execute staged).get⟩] ∧
        Ends call.ask (S.executeMsg call.env msg) ⟨staged, default⟩ ()
          ⟨call.settle S.execute staged, out⟩ ∧
        Effect S staged.get msg calls (call.settle S.execute staged).get ∧
        Trimmed (call.settle S.execute staged).get := by
  cases accepted : call.accepted S.execute staged with
  | none => exact .inl ⟨by simp [Invocation.settle, accepted], by simp [stepOf, accepted]⟩
  | some result =>
    obtain ⟨staged', out⟩ := result
    have settled : call.settle S.execute staged = staged' := by simp [Invocation.settle, accepted]
    have ends := accepted_iff.mp accepted
    unfold execute at ends
    split at ends
    · rename_i msg decoded
      obtain ⟨trimmed, calls, effect, emitted⟩ := executeMsg_effect sound.exact ends
      have emits : out.emitted = S.messages calls := emitted
      rw [settled]
      exact .inr ⟨msg, out, calls, by simp [stepOf, accepted, decoded, emits], ends, effect, trimmed⟩
    · exact absurd ends ends_fail

theorem store_settle (call : Invocation Msg) (staged : StagedStore Key Value) :
    (call.settle S.execute staged).store = staged.store := by
  rcases settle_cases S.execute staged call with same | ⟨out, accepted⟩
  · rw [same]
  · exact stages_execute S _ _ _ _ _ _ (accepted_iff.mp accepted)

theorem sound_genesis (S : SagaModule) (specs : SagaId → Bytes) : Sound S specs fun _ => none where
  exact := exact_empty S specs
  trimmed := by
    show overBudget 0 0 (ranked ∅) = []
    have none : ranked ∅ = [] := eq_nil_of_length_eq_zero (by simp [length_ranked])
    rw [none]
    rfl

theorem Sound.call (sound : Sound S (specsOf steps) staged.get) (call : Invocation Msg) :
    Sound S (specsOf (steps ++ S.stepOf call staged)) (call.settle S.execute staged).get := by
  rcases call_cases call sound with ⟨same, nothing⟩ | ⟨msg, out, calls, step, -, effect, trimmed⟩
  · rw [same, nothing, append_nil]
    exact sound
  · rw [step, specsOf_snoc]
    exact ⟨effect.exact sound.exact, trimmed⟩

theorem Reachable.sound (run : Reachable S staged steps base) :
    Sound S (specsOf steps) staged.get ∧ Sound S (specsOf base) staged.store := by
  induction run with
  | genesis => exact ⟨sound_genesis S _, sound_genesis S _⟩
  | call call _ ih =>
    refine ⟨ih.1.call call, ?_⟩
    rw [store_settle]
    exact ih.2
  | commit _ ih => exact ⟨ih.1, ih.1⟩
  | abort _ ih => exact ⟨ih.2, ih.2⟩

/-! ### Specs -/

theorem flatMap_chunkOf_range (spec : Bytes) (count : Nat) :
    (range count).flatMap (chunkOf spec) = spec.take (count * specChunkBytes) := by
  induction count with
  | zero => simp
  | succ count ih =>
    rw [range_succ, flatMap_append, ih, flatMap_singleton, chunkOf, Nat.succ_mul, take_add]

/-- The chunks of a spec join to it. -/
theorem flatMap_chunkOf (spec : Bytes) : (specChunks spec.length).flatMap (chunkOf spec) = spec := by
  rw [specChunks, flatMap_chunkOf_range]
  refine take_of_length_le ?_
  have size : specChunkBytes = 1044480 := by decide
  rw [size]
  omega

theorem ends_loadChunks {ask : (q : Ask) → Answer q} {scratch : Scratch Key Value} {id : SagaId} {spec : Bytes}
    {numbers : List Nat} (stored : ∀ n ∈ numbers, chunk scratch.staged.get id n = some (chunkOf spec n)) :
    Ends ask (loadChunks id numbers) scratch (numbers.flatMap (chunkOf spec)) scratch := by
  induction numbers with
  | nil => exact ends_pure.mpr ⟨rfl, rfl⟩
  | cons n rest ih =>
    simp only [loadChunks, ends_bind, ends_view, ends_require, ends_pure]
    exact ⟨_, _, ⟨rfl, rfl⟩, _, _, ⟨stored n mem_cons_self, rfl⟩, _, _,
      ih fun m mem => stored m (mem_cons_of_mem _ mem), flatMap_cons.symm, rfl⟩

/-- A record's spec loads. -/
theorem Exact.loads (exact : Exact S specs staged.get) {id : SagaId} {saga : Saga}
    (found : record staged.get id = some saga) (ask : (q : Ask) → Answer q) (out : Outputs) :
    Ends ask (loadSpec id saga.specLen) ⟨staged, out⟩ (specs id) ⟨staged, out⟩ := by
  have stored : ∀ n ∈ specChunks saga.specLen, chunk staged.get id n = some (chunkOf (specs id) n) := by
    intro n mem
    rw [exact.specLen id saga found] at mem
    rw [exact.chunks, if_pos ⟨by simp [found], mem⟩]
  have loaded : Ends ask (loadSpec id saga.specLen) ⟨staged, out⟩ _ ⟨staged, out⟩ := ends_loadChunks stored
  rwa [exact.specLen id saga found, flatMap_chunkOf, ← exact.specLen id saga found] at loaded

/-- The mirrors of a ledger are exact, its receipts rank newest first and are within their budgets, each
record's spec loads as it was triggered, and an id with no record has left nothing. -/
structure Mirrored (S : SagaModule) (specs : SagaId → Bytes) (staged : StagedStore Key Value) : Prop
    extends Exact S specs staged.get where
  /-- By the sort: the order the trim evicts in, from the end. -/
  ranking : (ranked (terminalOf staged.get)).Pairwise (newer · · = true)
  receipts : (terminalOf staged.get).size ≤ maxRetainedTerminal
  receiptBytes : ((ranked (terminalOf staged.get)).dropLast.map (·.2.bytes)).sum ≤ maxRetainedTerminalBytes
  loads : ∀ id saga, record staged.get id = some saga → ∀ ask out,
    Ends ask (loadSpec id saga.specLen) ⟨staged, out⟩ (specs id) ⟨staged, out⟩
  gone : ∀ id, record staged.get id = none → (∀ shard, (pendingIn staged.get shard)[id]? = none) ∧
    (terminalOf staged.get)[id]? = none ∧ ∀ n, chunk staged.get id n = none

/-- In every state that any calls, commits and aborts lead to, the mirrors say what the records say. -/
theorem reachable_mirrored (run : Reachable S staged steps base) : Mirrored S (specsOf steps) staged := by
  obtain ⟨exact, trimmed⟩ := run.sound.1
  have fits : overBudget 0 0 (ranked (terminalOf staged.get)) = [] := trimmed
  obtain ⟨count, bytes⟩ := overBudget_eq_nil fits (Nat.zero_le _)
  refine ⟨exact, pairwise_ranked _, ?_, ?_, fun id saga found ask out => ?_, fun id none => ⟨fun shard => ?_, ?_, ?_⟩⟩
  · rwa [Nat.zero_add, length_ranked] at count
  · rcases eq_or_ne (ranked (terminalOf staged.get)) [] with empty | some
    · simp [empty]
    · simpa using bytes some
  · exact exact.loads found ask out
  · refine Option.eq_none_iff_forall_ne_some.mpr fun row found => ?_
    obtain ⟨-, saga, recorded, -⟩ := (exact.pending shard id row).mp found
    rw [none] at recorded
    cases recorded
  · refine Option.eq_none_iff_forall_ne_some.mpr fun entry found => ?_
    obtain ⟨saga, recorded, -⟩ := (exact.terminal id entry).mp found
    rw [none] at recorded
    cases recorded
  · intro n
    rw [exact.chunks, none]
    simp

end runs

/-! ### A sample run -/

/-- The ids of two jobs of the submitter `[1]`. -/
def jobId : SagaId := "ext:01\x1fjob"

def taskId : SagaId := "ext:01\x1ftask"

/-- Three messages, told apart by their payload: the triggers of the two jobs, and the result of the first
one's attempt. -/
def jobCodec : Codec SagaMsg where
  encode
    | .trigger id .. => if id = jobId then [] else [0]
    | _ => [1]
  decode
    | [] => .ok (.trigger jobId [7, 8] (some "app") [9] none 2 none none [] (some [1]))
    | [0] => .ok (.trigger taskId [6] none [] none 1 none none [] (some [1]))
    | _ => .ok (.oracleResult jobId 0 (.ok [5]))
  debug _ := ""

/-- A codec of callbacks that reads back what it wrote. -/
def callbackCodec : Codec SagaCallback where
  encode call := marked.write (utf8 call.sagaId) ++ (marked.write call.payload ++ match call.outcome with
    | .done result => 0 :: result
    | .failed error => 1 :: utf8 error
    | .timedOut => [2]
    | .cancelled => [3])
  decode bytes := (do
    let (id, bytes) ← marked.read bytes
    let (payload, bytes) ← marked.read bytes
    let outcome : SagaOutcome ← match bytes with
      | 0 :: result => some (.done result)
      | 1 :: error => (fromUtf8 error).map .failed
      | 2 :: _ => some .timedOut
      | _ => some .cancelled
    return SagaCallback.mk (← fromUtf8 id) payload outcome).elim (.error "not a callback") .ok
  debug _ := ""

/-- A strict ledger that reads those messages. -/
def jobLedger : SagaModule where
  id := "saga"
  valset := none
  capabilityRegistry := none
  policy := .strict
  wire := blankWire
  sagaWire :=
    { sagaMsg := jobCodec
      callback := callbackCodec
      workerRequest := blankCodec _
      workerControl := blankCodec _
      capabilityQuery := blankCodec _
      capabilityReply := blankCodec _ }
  sha256 bytes := bytes.reverse
  quote text := "\"" ++ text ++ "\""
  recordBytes _ := []
  pendingBytes _ := []
  terminalBytes _ := []

/-- A call of the submitter `[1]`. -/
def jobCall (payload : Bytes) : Invocation Msg where
  ask
    | .query _ _ => .error (.module "no sibling")
    | .root _ => some default
  env := { (default : Env) with origin := .external [1] }
  msg := ⟨"saga", payload⟩

/-- The ledger after such calls, and their steps. -/
def jobRun (payloads : List Bytes) : StagedStore Key Value × List Step :=
  payloads.foldl (fun run payload =>
    ((jobCall payload).settle jobLedger.execute run.1, run.2 ++ jobLedger.stepOf (jobCall payload) run.1))
    (.new fun _ => none, [])

theorem reachable_jobRun (payloads : List Bytes) :
    Reachable jobLedger (jobRun payloads).1 (jobRun payloads).2 [] := by
  induction payloads using reverseRecOn with
  | nil => exact .genesis
  | append_singleton payloads payload ih =>
    rw [jobRun, foldl_append]
    exact .call (jobCall payload) ih

theorem reachable_mirrored_job :
    let run := jobRun [[], [0], [1]]
    [jobId, taskId].map (fun id => (record run.1.get id).map Saga.status) = [some .done, some .pending] ∧
      Mirrored jobLedger (specsOf run.2) run.1 :=
  ⟨by decide +kernel, reachable_mirrored (reachable_jobRun _)⟩

end Ducktape.SagaModule
