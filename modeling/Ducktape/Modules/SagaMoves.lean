import Ducktape.Lib.Weight
import Ducktape.Modules.SagaSteps

/-! # What a saga operation can do

`Move` is one use of a writer: a live saga is changed or ended, an ended one is removed. Every accepted
operation is a sequence of moves with the callbacks of the sagas it ended (`Did`), but for a trigger of a new
id, which opens it (`ends_trigger`). -/

namespace Ducktape.SagaModule

open Lib Handler List Option

/-! ## Moves -/

/-- A callback, with the module it goes to. -/
abbrev Call := ModuleId × SagaCallback

/-- Whom the end of a saga is told to. -/
def callbacks (id : SagaId) (saga : Saga) (outcome : SagaOutcome) : List Call :=
  (saga.replyTo.map fun target => (target, ⟨id, saga.replyPayload, outcome⟩)).toList

/-- The messages of these callbacks. -/
def messages (S : SagaModule) (calls : List Call) : List Msg :=
  calls.map fun call => ⟨call.1, S.sagaWire.callback.encode call.2⟩

/-- One use of a writer on a recorded saga, with the callbacks it comes with. -/
inductive Move (S : SagaModule) (id : SagaId) (s : Store) : List Call → Store → Prop
  | changed {old new s'} (found : record s id = some old) (live : old.status = .pending)
      (put : Put S s s' id new) (still : new.status = .pending) (kept : Kept old new) : Move S id s [] s'
  | ended {old new s'} {outcome : SagaOutcome} (found : record s id = some old)
      (live : old.status = .pending) (put : Put S s s' id new) (ends : new.status = outcome.status)
      (kept : Kept old new) : Move S id s (callbacks id new outcome) s'
  | removed {old s'} (found : record s id = some old) (ended : old.status ≠ .pending)
      (removed : Removed S s s' id old) : Move S id s [] s'

/-- A sequence of moves. -/
inductive Moves (S : SagaModule) : Store → List Call → Store → Prop
  | nil {s} : Moves S s [] s
  | cons {id s m s' calls rest} : Move S id s calls m → Moves S m rest s' → Moves S s (calls ++ rest) s'

section moves

variable {S : SagaModule} {specs : SagaId → Bytes} {s m s' : Store} {id : SagaId} {calls rest : List Call}

theorem outcome_status_ne (outcome : SagaOutcome) : outcome.status ≠ .pending := by
  cases outcome <;> simp [SagaOutcome.status]

theorem Move.exact (move : Move S id s calls s') (exact : Exact S specs s) : Exact S specs s' := by
  cases move with
  | changed found live put _ kept | ended found live put _ kept => exact exact.put found live kept put
  | removed found ended removed => exact Exact.removed exact found ended removed

/-- A move touches the record of its saga alone. -/
theorem Move.frame (move : Move S id s calls s') {other : SagaId} (apart : other ≠ id) :
    record s' other = record s other := by
  cases move with
  | changed _ _ put | ended _ _ put => rw [put.record, Function.update_of_ne apart]
  | removed _ _ removed => rw [removed.record, Function.update_of_ne apart]

theorem Moves.single (move : Move S id s calls s') : Moves S s calls s' := by
  simpa using Moves.cons move .nil

theorem Moves.trans (first : Moves S s calls m) (second : Moves S m rest s') : Moves S s (calls ++ rest) s' := by
  induction first with
  | nil => exact second
  | cons move _ ih =>
    rw [append_assoc]
    exact .cons move (ih second)

theorem Moves.exact (moves : Moves S s calls s') (exact : Exact S specs s) : Exact S specs s' := by
  induction moves with
  | nil => exact exact
  | cons move _ ih => exact ih (move.exact exact)

@[simp] theorem messages_nil : S.messages [] = [] := rfl

@[simp] theorem messages_append : S.messages (calls ++ rest) = S.messages calls ++ S.messages rest :=
  map_append

end moves

/-! ## What the operations do -/

/-- The run made these moves and emitted these callbacks. -/
structure Did (S : SagaModule) (scratch after : Scratch Key Value) (calls : List Call) : Prop where
  moves : Moves S scratch.staged.get calls after.staged.get
  emitted : after.out.emitted = scratch.out.emitted ++ S.messages calls

/-- The run moved one saga, and emitted the callbacks of that. -/
structure DidOne (S : SagaModule) (id : SagaId) (scratch after : Scratch Key Value) (calls : List Call) : Prop where
  move : Move S id scratch.staged.get calls after.staged.get
  emitted : after.out.emitted = scratch.out.emitted ++ S.messages calls

/-- The run left the ledger alone and emitted no callback. -/
def Idle (scratch after : Scratch Key Value) : Prop :=
  after.staged = scratch.staged ∧ after.out.emitted = scratch.out.emitted

section operations

variable {S : SagaModule} {specs : SagaId → Bytes} {ask : (q : Ask) → Answer q} {env : Env}
  {scratch mid after : Scratch Key Value} {id : SagaId} {old new saga : Saga} {calls rest : List Call}
  {assignee excluded : Option Bytes} {attempt : Nat} {spec : Bytes} {outcome : Except String Bytes}
  {capability : Option String} {demands : List (String × Nat)}

theorem Did.trans (first : Did S scratch mid calls) (second : Did S mid after rest) :
    Did S scratch after (calls ++ rest) :=
  ⟨first.moves.trans second.moves, by rw [second.emitted, first.emitted, messages_append, append_assoc]⟩

theorem Idle.did (idle : Idle scratch after) : Did S scratch after [] :=
  ⟨idle.1 ▸ .nil, by simp [idle.2]⟩

theorem Did.refl (scratch : Scratch Key Value) : Did S scratch scratch [] := Idle.did ⟨rfl, rfl⟩

theorem idle_cancelAttempt (ends : Ends ask (S.cancelAttempt id attempt assignee) scratch () after) :
    Idle scratch after := by
  unfold cancelAttempt at ends
  split at ends
  · obtain rfl := ends_emitEvent.mp ends
    exact ⟨rfl, rfl⟩
  · obtain ⟨-, rfl⟩ := ends_pure.mp ends
    exact ⟨rfl, rfl⟩

theorem idle_emitRequest (ends : Ends ask (S.emitRequest id saga spec) scratch () after) :
    Idle scratch after := by
  obtain rfl := ends_emitEvent.mp ends
  exact ⟨rfl, rfl⟩

theorem reads_loadChunks (id : SagaId) (numbers : List Nat) : Handler.Reads (loadChunks id numbers) := by
  induction numbers with
  | nil => exact .pure _
  | cons n rest ih =>
    exact .bind .view fun _ => .bind (.require _ _) fun _ => .bind ih fun _ => .pure _

theorem reads_loadSpec (id : SagaId) (specLen : Nat) : Handler.Reads (loadSpec id specLen) :=
  reads_loadChunks _ _

theorem reads_assignmentPool (capability : Option String) (demands : List (String × Nat)) :
    Handler.Reads (S.assignmentPool capability demands) := by
  refine .bind ?_ fun _ => .pure _
  split
  · unfold providers
    split
    · exact .pure _
    refine .bind (.tryQuery _ _) fun reply => ?_
    split
    · exact .pure _
    · split <;> exact .pure _
  · unfold validatorPool
    split
    · exact .pure _
    refine .bind (.tryQuery _ _) fun reply => ?_
    split
    · exact .pure _
    · split <;> exact .pure _

theorem reads_computeAssigneeExcluding (id : SagaId) (capability : Option String)
    (demands : List (String × Nat)) (attempt height : Nat) (excluded : Option Bytes) :
    Handler.Reads (S.computeAssigneeExcluding id capability demands attempt height excluded) := by
  refine .bind (reads_assignmentPool _ _) fun pool => ?_
  split <;> exact .pure _

theorem reads_checkError (outcome : Except String Bytes) : Handler.Reads (checkError outcome) := by
  cases outcome
  · exact .refuseIf _ _
  · exact .pure _

theorem reads_standingTier (valset : ModuleId) (query : ValsetQuery) (what : String)
    (keys? : ValsetReply → Option (List Bytes)) : Handler.Reads (S.standingTier valset query what keys?) := by
  refine .bind (.query _ _) fun reply => ?_
  split
  · exact .fail _
  · exact .require _ _

theorem reads_requireAcceptStanding (capability : Option String) (key : Bytes) :
    Handler.Reads (S.requireAcceptStanding capability key) := by
  refine .bind (.require _ _) fun _ => .bind ?_ fun _ => .bind (.refuseIf _ _) fun _ => ?_
  · exact .bind (reads_standingTier _ _ _ _) fun _ => .bind (reads_standingTier _ _ _ _) fun _ => .pure _
  · split
    · exact .pure _
    · refine .bind (.require _ _) fun _ => .bind (.tryQuery _ _) fun reply => ?_
      split
      · exact .fail _
      split
      · exact .fail _
      · exact .fail _
      · exact .refuseIf _ _

section finishing

variable {outcome : SagaOutcome} (found : record scratch.staged.get id = some old)
  (live : old.status = .pending)
include found live

/-- Ending a live saga. -/
theorem move_finish (ends : Ends ask (S.finish id new outcome) scratch () after)
    (ended : new.status = outcome.status) (kept : Kept old new) :
    DidOne S id scratch after (callbacks id new outcome) := by
  obtain ⟨_, m, called, puts⟩ := ends_bind.mp ends
  obtain ⟨put, out⟩ := ends_put puts
  have quiet : m.staged = scratch.staged ∧
      m.out.emitted = scratch.out.emitted ++ S.messages (callbacks id new outcome) := by
    unfold emitCallback at called
    unfold callbacks messages
    split at called
    · rename_i named
      obtain rfl := ends_emitMsg.mp called
      simp [named]
    · rename_i none
      obtain ⟨-, rfl⟩ := ends_pure.mp called
      simp [none]
  rw [quiet.1] at put
  exact ⟨.ended found live put ended kept, by rw [out, quiet.2]⟩

/-- Calling off a live saga's attempt and ending it. -/
theorem move_cancelFinish
    (ends : Ends ask (do S.cancelAttempt id attempt assignee; S.finish id new outcome) scratch () after)
    (ended : new.status = outcome.status) (kept : Kept old new) :
    DidOne S id scratch after (callbacks id new outcome) := by
  obtain ⟨_, m, cancels, finishes⟩ := ends_bind.mp ends
  obtain ⟨staged, silent⟩ := idle_cancelAttempt cancels
  obtain ⟨move, emitted⟩ := move_finish (staged ▸ found) live finishes ended kept
  exact ⟨staged ▸ move, silent ▸ emitted⟩

end finishing

/-- The record as it is leased to an assignee. -/
def leased (env : Env) (saga : Saga) (assignee : Option Bytes) : Saga :=
  { saga with
    assignee := assignee
    leaseExpiresAt := boundedLeaseExpiry env.height assignee saga.leaseViews saga.deadline }

theorem Kept.leased (kept : Kept old new) (assignee : Option Bytes) : Kept old (leased env new assignee) :=
  ⟨kept.origin, kept.replyTo, kept.replyPayload, kept.specLen, kept.maxAttempts, kept.attempt, kept.within⟩

theorem ends_requestAssigned
    (ends : Ends ask (S.requestAssigned env id new spec assignee) scratch () after) :
    Put S scratch.staged.get after.staged.get id (leased env new assignee) ∧
      after.out.emitted = scratch.out.emitted := by
  obtain ⟨_, m, puts, requests⟩ := ends_bind.mp ends
  obtain ⟨put, out⟩ := ends_put puts
  obtain ⟨staged, emitted⟩ := idle_emitRequest requests
  rw [staged, emitted, out]
  exact ⟨put, rfl⟩

theorem ends_leaseAndRequestExcluding
    (ends : Ends ask (S.leaseAndRequestExcluding env id new spec excluded) scratch () after) :
    ∃ assignee, Put S scratch.staged.get after.staged.get id (leased env new assignee) ∧
      after.out.emitted = scratch.out.emitted := by
  obtain ⟨assignee, m, picks, requests⟩ := ends_bind.mp ends
  have same : m = scratch := by
    split at picks
    · exact (Handler.Reads.pure _) _ _ _ _ picks
    · exact reads_computeAssigneeExcluding _ _ _ _ _ _ _ _ _ _ picks
  rw [same] at requests
  exact ⟨assignee, ends_requestAssigned requests⟩

theorem move_leaseAndRequestExcluding (found : record scratch.staged.get id = some old)
    (live : old.status = .pending)
    (ends : Ends ask (S.leaseAndRequestExcluding env id new spec excluded) scratch () after)
    (still : new.status = .pending) (kept : Kept old new) :
    DidOne S id scratch after [] := by
  obtain ⟨assignee, put, emitted⟩ := ends_leaseAndRequestExcluding ends
  exact ⟨.changed found live put still (kept.leased assignee), by simp [emitted]⟩

theorem current_eq_some {s : Store} {attempt : Option Nat} :
    current s id attempt = some saga ↔
      record s id = some saga ∧ saga.status = .pending ∧ ∀ named ∈ attempt, named = saga.attempt := by
  rw [current]
  cases attempt <;> simp

theorem DidOne.did (one : DidOne S id scratch after calls) : Did S scratch after calls :=
  ⟨.single one.move, one.emitted⟩

/-- A handler that does nothing. -/
theorem Did.of_pure (ends : Ends ask (pure () : Op Unit) scratch () after) : Did S scratch after [] := by
  obtain ⟨-, rfl⟩ := ends_pure.mp ends
  exact .refl _

theorem did_landResult (found : record scratch.staged.get id = some old) (live : old.status = .pending)
    (now : Nat)
    (ends : Ends ask (S.landResult env id { old with updatedAt := now } outcome) scratch () after) :
    ∃ calls, Did S scratch after calls := by
  cases outcome with
  | ok result =>
    simp only [landResult, ends_bind, ends_refuseIf] at ends
    obtain ⟨_, _, ⟨-, rfl⟩, ends⟩ := ends
    exact ⟨_, (move_finish found live ends rfl ⟨rfl, rfl, rfl, rfl, rfl, le_rfl, fun h => h⟩).did⟩
  | error error =>
    simp only [landResult] at ends
    split at ends
    · rename_i remain
      obtain ⟨spec, _, loads, leases⟩ := ends_bind.mp ends
      obtain rfl := reads_loadSpec _ _ _ _ _ _ loads
      exact ⟨_, (move_leaseAndRequestExcluding found live leases live
        ⟨rfl, rfl, rfl, rfl, rfl, Nat.le_succ _, fun _ => remain⟩).did⟩
    · exact ⟨_, (move_finish found live ends rfl ⟨rfl, rfl, rfl, rfl, rfl, le_rfl, fun h => h⟩).did⟩

/-- A result lands on a live saga in the attempt it names, from whom the policy lets, or does nothing. -/
theorem did_oracleResult
    (ends : Ends ask (S.handleOracleResult env id attempt outcome) scratch () after) :
    (∃ calls, Did S scratch after calls) ∧ (after = scratch ∨
      ∃ saga, record scratch.staged.get id = some saga ∧ saga.status = .pending ∧ attempt = saga.attempt ∧
        S.mayLand env saga = true) := by
  simp only [handleOracleResult, ends_bind] at ends
  obtain ⟨_, _, ⟨rfl, rfl⟩, ends⟩ := ends
  split at ends
  · obtain ⟨-, rfl⟩ := ends_pure.mp ends
    exact ⟨⟨[], .refl _⟩, .inl rfl⟩
  rename_i saga named
  obtain ⟨found, live, same⟩ := current_eq_some.mp named
  split at ends
  · rename_i lands
    obtain ⟨_, _, checked, landing⟩ := ends_bind.mp ends
    obtain rfl := reads_checkError _ _ _ _ _ checked
    exact ⟨did_landResult found live _ landing, .inr ⟨saga, found, live, same attempt rfl, lands⟩⟩
  · obtain ⟨-, rfl⟩ := ends_pure.mp ends
    exact ⟨⟨[], .refl _⟩, .inl rfl⟩

theorem did_renewLease (ends : Ends ask (S.handleRenewLease env id attempt) scratch () after) :
    Did S scratch after [] := by
  simp only [handleRenewLease, ends_bind] at ends
  obtain ⟨_, _, ⟨rfl, rfl⟩, ends⟩ := ends
  split at ends
  · exact .of_pure ends
  rename_i named
  obtain ⟨found, live, -⟩ := current_eq_some.mp named
  split at ends
  · exact .of_pure ends
  split at ends
  · obtain ⟨put, out⟩ := ends_put ends
    exact DidOne.did ⟨.changed found live put live ⟨rfl, rfl, rfl, rfl, rfl, le_rfl, fun h => h⟩, by simp [out]⟩
  · exact .of_pure ends

theorem did_reassign (ends : Ends ask (S.handleReassign env id attempt) scratch () after) :
    Did S scratch after [] := by
  simp only [handleReassign, ends_bind] at ends
  obtain ⟨_, _, ⟨rfl, rfl⟩, ends⟩ := ends
  split at ends
  · exact .of_pure ends
  rename_i saga named
  obtain ⟨found, live, -⟩ := current_eq_some.mp named
  simp only [ends_bind, ends_ofExcept] at ends
  obtain ⟨origin, _, ⟨-, rfl⟩, ends⟩ := ends
  split at ends
  · simp only [reassign, ends_bind, ends_refuseIf, ends_require] at ends
    obtain ⟨_, _, ⟨-, rfl⟩, _, _, ⟨remain, rfl⟩, picked, _, picks, next, _, ⟨-, rfl⟩, spec, _, loads, _, m,
      cancels, requests⟩ := ends
    obtain rfl := reads_computeAssigneeExcluding _ _ _ _ _ _ _ _ _ _ picks
    obtain rfl := reads_loadSpec _ _ _ _ _ _ loads
    obtain ⟨staged, silent⟩ := idle_cancelAttempt cancels
    have found' : record m.staged.get id = some saga := staged ▸ found
    obtain ⟨put, emitted⟩ := ends_requestAssigned requests
    have kept : Kept saga { saga with attempt := saga.attempt + 1, updatedAt := env.consensusTime } :=
      ⟨rfl, rfl, rfl, rfl, rfl, Nat.le_succ _, fun _ => Nat.lt_of_not_le remain⟩
    have move := Move.changed found' live put live (kept.leased _)
    exact DidOne.did ⟨staged ▸ move, by simp [emitted, silent]⟩
  · exact .of_pure ends

theorem did_accept (ends : Ends ask (S.handleAccept env id attempt) scratch () after) :
    Did S scratch after [] := by
  simp only [handleAccept, ends_bind, ends_ofExcept] at ends
  obtain ⟨key, _, ⟨-, rfl⟩, _, _, ⟨rfl, rfl⟩, ends⟩ := ends
  split at ends
  · exact .of_pure ends
  rename_i named
  obtain ⟨found, live, -⟩ := current_eq_some.mp named
  split at ends
  · exact .of_pure ends
  simp only [ends_bind] at ends
  obtain ⟨_, _, stands, spec, _, loads, _, m, puts, requests⟩ := ends
  obtain rfl := reads_requireAcceptStanding _ _ _ _ _ _ stands
  obtain rfl := reads_loadSpec _ _ _ _ _ _ loads
  obtain ⟨put, out⟩ := ends_put puts
  obtain ⟨staged, emitted⟩ := idle_emitRequest requests
  rw [← staged] at put
  exact DidOne.did ⟨.changed found live put live ⟨rfl, rfl, rfl, rfl, rfl, le_rfl, fun h => h⟩, by simp [emitted, out]⟩

/-- The sagas of other origins are as they were. -/
def Spares (stamped : Except Error SagaOrigin) (scratch after : Scratch Key Value) : Prop :=
  ∀ other saga, record scratch.staged.get other = some saga → stamped ≠ .ok saga.origin →
    record after.staged.get other = some saga

theorem did_cancel (ends : Ends ask (S.handleCancel env id) scratch () after) :
    ∃ calls, Did S scratch after calls ∧ Spares (sagaOrigin env.origin) scratch after := by
  simp only [handleCancel, ends_bind] at ends
  obtain ⟨_, _, ⟨rfl, rfl⟩, ends⟩ := ends
  split at ends
  · obtain ⟨-, rfl⟩ := ends_pure.mp ends
    exact ⟨[], .refl _, fun _ _ found _ => found⟩
  rename_i named
  obtain ⟨found, live, -⟩ := current_eq_some.mp named
  simp only [ends_bind, ends_ofExcept] at ends
  obtain ⟨origin, _, ⟨stamped, rfl⟩, ends⟩ := ends
  split at ends
  · rename_i own
    have one := move_cancelFinish found live ends rfl ⟨rfl, rfl, rfl, rfl, rfl, le_rfl, fun h => h⟩
    refine ⟨_, one.did, fun other saga held foreign => ?_⟩
    rw [one.move.frame, held]
    rintro rfl
    exact foreign (Option.some.inj (found.symm.trans held) ▸ own ▸ stamped)
  · obtain ⟨-, rfl⟩ := ends_pure.mp ends
    exact ⟨[], .refl _, fun _ _ found _ => found⟩

theorem did_pruneAll {origin : SagaOrigin} {ids : List SagaId}
    (ends : Ends ask (S.pruneAll origin ids) scratch () after) :
    Did S scratch after [] ∧ Spares (.ok origin) scratch after := by
  induction ids generalizing scratch with
  | nil =>
    obtain ⟨-, rfl⟩ := ends_pure.mp ends
    exact ⟨.refl _, fun _ _ found _ => found⟩
  | cons id rest ih =>
    simp only [pruneAll, ends_bind] at ends
    obtain ⟨_, _, ⟨_, _, ⟨rfl, rfl⟩, rfl, rfl⟩, _, m, prunes, ends⟩ := ends
    obtain ⟨later, spares⟩ := ih ends
    suffices first : Did S scratch m [] ∧ Spares (.ok origin) scratch m from
      ⟨first.1.trans later, fun other saga held foreign => spares other saga (first.2 other saga held foreign) foreign⟩
    split at prunes
    · obtain ⟨-, rfl⟩ := ends_pure.mp prunes
      exact ⟨.refl _, fun _ _ found _ => found⟩
    rename_i found
    split at prunes
    · rename_i own
      obtain ⟨removed, out⟩ := ends_remove prunes
      refine ⟨DidOne.did ⟨.removed found (isTerminal_eq_true.mp own.1) removed, by simp [out]⟩, ?_⟩
      intro other saga held foreign
      rw [removed.record, Function.update_of_ne, held]
      rintro rfl
      exact foreign (congrArg _ (Option.some.inj (found.symm.trans held) ▸ own.2.symm))
    · obtain ⟨-, rfl⟩ := ends_pure.mp prunes
      exact ⟨.refl _, fun _ _ found _ => found⟩

/-- One crank of a live saga moves it alone. -/
theorem move_crankOne (alive : ∀ saga, record scratch.staged.get id = some saga → saga.status = .pending)
    (ends : Ends ask (S.crankOne env id) scratch () after) :
    ∃ calls, DidOne S id scratch after calls := by
  simp only [crankOne, requireSaga, ends_bind, ends_require] at ends
  obtain ⟨saga, _, ⟨_, _, ⟨rfl, rfl⟩, found, rfl⟩, ends⟩ := ends
  have live := alive saga found
  split at ends
  · exact ⟨_, move_cancelFinish found live ends rfl ⟨rfl, rfl, rfl, rfl, rfl, le_rfl, fun h => h⟩⟩
  split at ends
  · rename_i remain
    simp only [ends_bind] at ends
    obtain ⟨spec, _, loads, _, m, cancels, leases⟩ := ends
    obtain rfl := reads_loadSpec _ _ _ _ _ _ loads
    obtain ⟨staged, silent⟩ := idle_cancelAttempt cancels
    have found' : record m.staged.get id = some saga := staged ▸ found
    obtain ⟨move, emitted⟩ := move_leaseAndRequestExcluding found' live leases live
      ⟨rfl, rfl, rfl, rfl, rfl, Nat.le_succ _, fun _ => remain⟩
    exact ⟨_, staged ▸ move, by simp [emitted, silent]⟩
  · exact ⟨_, move_cancelFinish found live ends rfl ⟨rfl, rfl, rfl, rfl, rfl, le_rfl, fun h => h⟩⟩

theorem did_crankAll {ids : List SagaId} (distinct : ids.Nodup)
    (live : ∀ id ∈ ids, ∀ saga, record scratch.staged.get id = some saga → saga.status = .pending)
    (ends : Ends ask (S.crankAll env ids) scratch () after) : ∃ calls, Did S scratch after calls := by
  induction ids generalizing scratch with
  | nil => exact ⟨[], .of_pure ends⟩
  | cons id rest ih =>
    obtain ⟨_, m, first, others⟩ := ends_bind.mp ends
    obtain ⟨apart, distinct⟩ := nodup_cons.mp distinct
    obtain ⟨calls, one⟩ := move_crankOne (live id mem_cons_self) first
    obtain ⟨later, did⟩ := ih distinct (fun other mem saga found => by
      rw [one.move.frame fun same => apart (same ▸ mem)] at found
      exact live other (mem_cons_of_mem _ mem) saga found) others
    exact ⟨_, one.did.trans did⟩

/-- A row of the merged live index is a row of a shard. -/
theorem loadPending_row {s : Store} {row : PendingMeta} (found : (loadPending s)[id]? = some row) :
    ∃ shard, (pendingIn s shard)[id]? = some row := by
  have merged : ∀ (shards : List Nat) (start : PendingIndex),
      (∀ (id : SagaId) row, start[id]? = some row →
        ∃ shard, (pendingIn s shard)[id]? = some row) →
      ∀ (id : SagaId) row, (shards.foldl (fun merged shard => merged.insertMany (pendingIn s shard).toList) start)[id]?
        = some row → ∃ shard, (pendingIn s shard)[id]? = some row := by
    intro shards
    induction shards with
    | nil => exact fun _ sound => sound
    | cons shard shards ih =>
      intro start sound
      refine ih _ fun id row found => ?_
      refine forall_insertMany
        (fun entry mem => ⟨shard, ?_⟩) sound found
      exact Std.ExtTreeMap.mem_toList_iff_getElem?_eq_some.mp mem
  exact merged _ ∅ (by simp) id row found

theorem expired_nodup (s : Store) (now : Nat) : (expired s now).Nodup := by
  refine List.Sublist.nodup (take_sublist _ _) ?_
  rw [((mergeSort_perm _ _).map _).nodup_iff, nodup_iff_pairwise_ne, pairwise_map, pairwise_filterMap]
  refine Std.ExtTreeMap.distinct_keys_toList.imp ?_
  rintro ⟨id, row⟩ ⟨id', row'⟩ apart ⟨due, named⟩ found ⟨due', named'⟩ found'
  simp only [bind_eq_some_iff, ite_none_right_eq_some, some.injEq, Prod.mk.injEq] at found found'
  obtain ⟨_, -, -, -, rfl⟩ := found
  obtain ⟨_, -, -, -, rfl⟩ := found'
  exact fun same => apart (by simpa using same)

theorem expired_live (exact : Exact S specs scratch.staged.get) {now : Nat}
    (mem : id ∈ expired scratch.staged.get now) (found : record scratch.staged.get id = some saga) :
    saga.status = .pending := by
  obtain ⟨⟨due, named⟩, sorted, rfl⟩ := mem_map.mp (mem_of_mem_take mem)
  rw [mem_mergeSort] at sorted
  obtain ⟨⟨id, row⟩, listed, picked⟩ := mem_filterMap.mp sorted
  obtain ⟨_, -, picked⟩ := bind_eq_some_iff.mp picked
  split at picked
  · obtain rfl : id = named := (Prod.mk.inj (some.inj picked)).2
    obtain ⟨shard, row⟩ := loadPending_row (Std.ExtTreeMap.mem_toList_iff_getElem?_eq_some.mp listed)
    obtain ⟨-, recorded, found', live, -⟩ := (exact.pending _ _ _).mp row
    rw [found, some_inj] at found'
    rw [found']
    exact live
  · cases picked

theorem did_crank (exact : Exact S specs scratch.staged.get)
    (ends : Ends ask (S.handleCrank env) scratch () after) : ∃ calls, Did S scratch after calls := by
  simp only [handleCrank, ends_bind] at ends
  obtain ⟨_, _, ⟨rfl, rfl⟩, ends⟩ := ends
  exact did_crankAll (expired_nodup _ _) (fun _ mem _ found => expired_live exact mem found) ends

/-! ### Triggering -/

theorem reads_checkTrigger (spec payload : Bytes) (maxAttempts : Nat) (capability : Option String)
    (demands : List (String × Nat)) (pinned : Option Bytes) :
    Handler.Reads (S.checkTrigger spec payload maxAttempts capability demands pinned) := by
  refine .bind (.refuseIf _ _) fun _ => .bind (.refuseIf _ _) fun _ => .bind (.refuseIf _ _) fun _ =>
    .bind ?_ fun _ => .bind ?_ fun _ => ?_
  · split
    · exact .pure _
    · exact .bind (.refuseIf _ _) fun _ => .refuseIf _ _
  · split
    · exact .pure _
    · exact .fail _
  · split
    · exact .pure _
    · exact .bind (.refuseIf _ _) fun _ => .refuseIf _ _

theorem reads_checkReplyTo (replyTo : Option ModuleId) : Handler.Reads (checkReplyTo env replyTo) := by
  unfold checkReplyTo
  split
  · exact .pure _
  · exact .bind (.refuseIf _ _) fun _ => .bind (.moduleRoot _) fun _ => .refuseIf _ _

/-- A new record, its origin's slot and its chunks are an opening. -/
theorem opened_of_put {s m c s' : Store} {count : Option Nat} (fresh : record s id = none)
    (put : Put S s m id new) (live : new.status = .pending) (attempt : new.attempt < new.maxAttempts)
    (specLen : new.specLen = spec.length) (room : liveSagas s new.origin < liveSagaCap new.origin)
    (claimed : c = Function.update m (.quota new.origin) count)
    (counts : count.getD 0 = liveSagas m new.origin + 1)
    (frame : ∀ key, (∀ n, key ≠ .spec id n) → s' key = c key)
    (chunks : ∀ n, chunk s' id n = if n ∈ specChunks spec.length then some (chunkOf spec n) else chunk c id n) :
    Opened S s s' id new spec := by
  have nonterminal : new.status.isTerminal = false := isTerminal_eq_false.mpr live
  have shards := put.pending
  have terminals := put.terminal
  simp only [indexed, nonterminal, Bool.false_eq_true, if_false] at shards terminals
  subst claimed
  refine ⟨fresh, live, attempt, specLen, room, ?_, fun other n => ?_, ?_, ?_, ?_⟩
  · rw [← put.record]
    funext other
    rw [record, frame _ (by simp)]
    simp [record]
  · by_cases same : other = id
    · subst same
      simp [chunks, put.chunk]
    · rw [chunk, frame _ (by simp [same]), if_neg (by simp [same]), ← put.chunk]
      simp [chunk]
  · rw [← shards]
    funext shard
    rw [pendingIn, frame _ (by simp)]
    simp [pendingIn]
  · rw [← terminals, terminalOf, frame _ (by simp)]
    simp [terminalOf]
  · rw [← put.live nonterminal, ← counts, ← liveSagas_update_quota]
    funext origin
    rw [liveSagas, frame _ (by simp), liveSagas]

/-- A trigger of a recorded id does nothing; of a new one, it opens it. -/
theorem ends_trigger {payload : Bytes} {replyTo : Option ModuleId} {deadline leaseViews : Option Nat}
    {maxAttempts : Nat} {pinned : Option Bytes}
    (ends : Ends ask (S.handleTrigger env id spec replyTo payload deadline maxAttempts leaseViews
      capability demands pinned) scratch () after) :
    (after = scratch ∧ (record scratch.staged.get id).isSome) ∨
      ∃ saga, Opened S scratch.staged.get after.staged.get id saga spec ∧ saga.replyTo = replyTo ∧
        saga.replyPayload = payload ∧ after.out.emitted = scratch.out.emitted := by
  simp only [handleTrigger, ends_bind, ends_refuseIf] at ends
  obtain ⟨_, _, ⟨-, rfl⟩, _, _, ⟨-, rfl⟩, existing, _, ⟨_, _, ⟨rfl, rfl⟩, rfl, rfl⟩, ends⟩ := ends
  split at ends
  · rename_i known
    obtain ⟨-, rfl⟩ := ends_pure.mp ends
    exact .inl ⟨rfl, known⟩
  · rename_i unknown
    simp only [checkQuota, ends_bind, ends_ofExcept, ends_refuseIf] at ends
    obtain ⟨_, _, checked, _, _, replies, origin, _, ⟨-, rfl⟩, _, _, ⟨_, _, ⟨rfl, rfl⟩, room, rfl⟩, _, m,
      leases, _, c, claims, chunks⟩ := ends
    have attempts : 0 < maxAttempts := by
      simp only [checkTrigger, ends_bind, ends_refuseIf] at checked
      omega
    obtain rfl := reads_checkTrigger _ _ _ _ _ _ _ _ _ _ checked
    obtain rfl := reads_checkReplyTo _ _ _ _ _ replies
    obtain ⟨assignee, put, emitted⟩ := ends_leaseAndRequestExcluding leases
    simp only [claimLiveSlot, ends_bind] at claims
    obtain ⟨_, _, ⟨rfl, rfl⟩, claims⟩ := claims
    obtain ⟨count, counts, claimed, claimOut⟩ := ends_stageLiveCount claims
    obtain ⟨frame, staged, chunkOut⟩ := ends_stageChunks chunks
    have fresh := not_isSome_iff_eq_none.mp unknown
    refine .inr ⟨_, opened_of_put fresh put rfl attempts rfl (Nat.lt_of_not_le room) claimed counts frame staged,
      rfl, rfl, ?_⟩
    rw [chunkOut, claimOut, emitted]

end operations

end Ducktape.SagaModule
