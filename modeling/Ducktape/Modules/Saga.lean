import Std.Data.ExtTreeMap
import Ducktape.Lib.Borsh
import Ducktape.Modules.Wire
import Ducktape.Sdk.Handler

/-! # The saga ledger

A saga is one piece of asynchronous work: a trigger records it, workers run its attempts under leases, one
agreed result, a deadline, an exhausted lease or a cancel ends it, and the requester is called back when it
ends. The store keeps one record per saga and the spec in chunks beside it, and, since it cannot be
enumerated, four kinds of mirror: the live ids in shards, the terminal ids, and a live count per origin.

The record codec, the hash and the wire codecs are third-party code and enter as fields of `SagaModule`. -/

namespace Ducktape

open Lib Handler

/-! ## Wire surface -/

abbrev SagaId := String

inductive SagaMsg
  | trigger (sagaId : SagaId) (spec : Bytes) (replyTo : Option ModuleId) (replyPayload : Bytes)
      (deadline : Option Nat) (maxAttempts : Nat) (leaseViews : Option Nat) (capability : Option String)
      (demands : List (String × Nat)) (pinnedAssignee : Option Bytes)
  | oracleResult (sagaId : SagaId) (attempt : Nat) (outcome : Except String Bytes)
  | renewLease (sagaId : SagaId) (attempt : Nat)
  | reassign (sagaId : SagaId) (attempt : Nat)
  | accept (sagaId : SagaId) (attempt : Nat)
  | crank
  | cancel (sagaId : SagaId)
  | prune (sagaIds : List SagaId)

/-- The order a worker runs, or an announcement when no assignee is named. -/
structure WorkerRequest where
  sagaId : SagaId
  attempt : Nat
  spec : Bytes
  deadline : Option Nat
  assignee : Option Bytes
  deriving DecidableEq

/-- The one control a worker gets: stop this attempt. -/
structure CancelAttempt where
  sagaId : SagaId
  attempt : Nat
  assignee : Bytes
  deriving DecidableEq

inductive SagaStatus
  | pending
  | done
  | failed
  | timedOut
  | cancelled
  deriving DecidableEq, Inhabited

def SagaStatus.isTerminal : SagaStatus → Bool
  | .pending => false
  | .done | .failed | .timedOut | .cancelled => true

/-- How a saga ended, as its requester is told. -/
inductive SagaOutcome
  | done (result : Bytes)
  | failed (error : String)
  | timedOut
  | cancelled
  deriving DecidableEq

/-- The status an outcome belongs to. -/
def SagaOutcome.status : SagaOutcome → SagaStatus
  | .done _ => .done
  | .failed _ => .failed
  | .timedOut => .timedOut
  | .cancelled => .cancelled

structure SagaCallback where
  sagaId : SagaId
  payload : Bytes
  outcome : SagaOutcome
  deriving DecidableEq

inductive CapabilityQuery
  | providers (capability : String)
  | capableProviders (capability : String) (demands : List (String × Nat))
  deriving DecidableEq

inductive CapabilityReply
  | providers (keys : List Bytes)
  /-- Any of the replies to other queries. -/
  | other
  deriving DecidableEq

/-- The codecs of the saga ledger and of the capability registry it reads. -/
structure SagaWire where
  sagaMsg : Codec SagaMsg
  callback : Codec SagaCallback
  workerRequest : Codec WorkerRequest
  workerControl : Codec CancelAttempt
  capabilityQuery : Codec CapabilityQuery
  capabilityReply : Codec CapabilityReply

/-- `Debug` of a saga's origin. -/
def SagaOrigin.debug : SagaOrigin → String
  | .external key => Origin.debug (.external key)
  | .module id => Origin.debug (.module id)
  | .system => Origin.debug .system

/-- `owns_id`: an id is owned by the actor whose namespace it is in. -/
def ownsId (origin : Origin) (sagaId : SagaId) : Bool :=
  (origin.actorString.toList ++ [keySep]).isPrefixOf sagaId.toList

namespace SagaModule

/-! ## Caps -/

def crankBudget : Nat := 32
def perOriginLiveSagas : Nat := 256
def perModuleLiveSagas : Nat := 4096
def maxRetainedTerminal : Nat := 64
def maxRetainedTerminalBytes : Nat := 4 * 1024 * 1024
def defaultLeaseViews : Nat := 64
def maxRecordBytes : Nat := 2 ^ 20 - 4 * 1024
def specChunkBytes : Nat := maxRecordBytes
def maxSagaIdBytes : Nat := 512
def maxAssigneeBytes : Nat := 256
def maxResultBytes : Nat := 256 * 1024
def maxSpecBytes : Nat := 12 * 1024 * 1024
def maxReplyPayloadBytes : Nat := 64 * 1024
def maxErrorBytes : Nat := 16 * 1024
def maxCapabilityBytes : Nat := 64
def maxTagLen : Nat := 64
def maxResourceDims : Nat := 16
def pendingShards : Nat := 16

/-- `live_saga_cap`: a key is a principal, a module is not. -/
def liveSagaCap : SagaOrigin → Nat
  | .external _ => perOriginLiveSagas
  | .module _ | .system => perModuleLiveSagas

/-! ## Records -/

/-- Who may complete an assigned attempt. -/
inductive LeasePolicy
  /-- Any submitter. -/
  | open
  /-- Only the assignee. -/
  | strict
  deriving DecidableEq

/-- One saga's hot record; its spec is stored beside it. -/
structure Saga where
  origin : SagaOrigin
  replyTo : Option ModuleId
  replyPayload : Bytes
  specLen : Nat
  capability : Option String
  demands : List (String × Nat)
  status : SagaStatus
  attempt : Nat
  maxAttempts : Nat
  assignee : Option Bytes
  pinnedAssignee : Option Bytes
  leaseViews : Option Nat
  leaseExpiresAt : Option Nat
  deadline : Option Nat
  result : Option Bytes
  error : Option String
  createdAt : Nat
  updatedAt : Nat
  deriving DecidableEq

/-- What the retention budget counts of a saga. -/
def Saga.receiptBytes (saga : Saga) : Nat :=
  saga.specLen + saga.replyPayload.length + (saga.result.map List.length).getD 0
    + (saga.error.map String.utf8ByteSize).getD 0

/-- A live saga's row: when it can expire, and whether its attempt has a holder. -/
structure PendingMeta where
  due : Option Nat
  assigned : Bool
  deriving DecidableEq

/-- The one derivation from a record. -/
def PendingMeta.of (saga : Saga) : PendingMeta where
  due := match saga.deadline, saga.leaseExpiresAt with
    | some deadline, some lease => some (min deadline lease)
    | deadline, lease => deadline.or lease
  assigned := saga.assignee.isSome

/-- A terminal saga's row: what the retention trim ranks on. -/
structure TerminalEntry where
  updatedAt : Nat
  bytes : Nat
  deriving DecidableEq

def TerminalEntry.of (saga : Saga) : TerminalEntry := ⟨saga.updatedAt, saga.receiptBytes⟩

abbrev PendingIndex := Std.ExtTreeMap SagaId PendingMeta

abbrev TerminalIndex := Std.ExtTreeMap SagaId TerminalEntry

/-- The store's keys, one constructor per record kind. -/
inductive Key
  | record (sagaId : SagaId)
  | spec (sagaId : SagaId) (chunk : Nat)
  | pending (shard : Nat)
  | terminal
  | quota (origin : SagaOrigin)
  deriving DecidableEq

/-- The record under each key. -/
abbrev Value : Key → Type
  | .record _ => Saga
  | .spec _ _ => Bytes
  | .pending _ => PendingIndex
  | .terminal => TerminalIndex
  | .quota _ => Nat

instance : (key : Key) → DecidableEq (Value key)
  | .record _ => inferInstanceAs (DecidableEq Saga)
  | .spec _ _ => inferInstanceAs (DecidableEq Bytes)
  | .pending _ => inferInstanceAs (DecidableEq PendingIndex)
  | .terminal => inferInstanceAs (DecidableEq TerminalIndex)
  | .quota _ => inferInstanceAs (DecidableEq Nat)

abbrev Store := Records Key Value

abbrev Op (α : Type) := Handler Key Value α

section reads

variable (s : Store)

def record (sagaId : SagaId) : Option Saga := s (.record sagaId)

def chunk (sagaId : SagaId) (n : Nat) : Option Bytes := s (.spec sagaId n)

/-- One shard of the live index; an absent one is empty. -/
def pendingIn (shard : Nat) : PendingIndex := (s (.pending shard)).getD ∅

/-- The terminal index. -/
def terminalOf : TerminalIndex := (s .terminal).getD ∅

/-- How many live sagas an origin holds. -/
def liveSagas (origin : SagaOrigin) : Nat := (s (.quota origin)).getD 0

/-- `load_pending`: the shards merged into one index. -/
def loadPending : PendingIndex :=
  (List.range pendingShards).foldl (fun merged shard => merged.insertMany (pendingIn s shard).toList) ∅

end reads

/-! ## Retention -/

/-- Newest first; the id breaks ties. -/
def newer (a b : SagaId × TerminalEntry) : Bool :=
  decide (b.2.updatedAt < a.2.updatedAt ∨ a.2.updatedAt = b.2.updatedAt ∧ b.1 ≤ a.1)

/-- Walk the ranked receipts and collect what the budgets do not keep. -/
def overBudget : (kept keptBytes : Nat) → List (SagaId × TerminalEntry) → List SagaId
  | _, _, [] => []
  | kept, keptBytes, (id, entry) :: rest =>
    if kept < maxRetainedTerminal ∧ keptBytes ≤ maxRetainedTerminalBytes then
      overBudget (kept + 1) (min (keptBytes + entry.bytes) u64Max) rest
    else id :: overBudget kept keptBytes rest

/-- `terminal_evictions`. -/
def terminalEvictions (terminal : TerminalIndex) : List SagaId :=
  overBudget 0 0 (terminal.toList.mergeSort newer)

/-! ## Leases -/

/-- `lease_expiry`: an unassigned attempt has no lease. -/
def leaseExpiry (height : Nat) (assignee : Option Bytes) (leaseViews : Option Nat) : Option Nat :=
  match assignee, leaseViews with
  | none, _ => none
  | some _, some views => some (min (height + views) u64Max)
  | some _, none => some (min (height + defaultLeaseViews) u64Max)

def boundedLeaseExpiry (height : Nat) (assignee : Option Bytes) (leaseViews deadline : Option Nat) :
    Option Nat :=
  (leaseExpiry height assignee leaseViews).map fun expiry =>
    match deadline with
    | some deadline => min expiry deadline
    | none => expiry

/-- `saga_origin`: a program account has no standing here. -/
def sagaOrigin : Origin → Except Error SagaOrigin
  | .external key => .ok (.external key)
  | .module id => .ok (.module id)
  | .program account => .error (.module s!"saga: a program account has no saga standing: {account}")
  | .system => .ok .system

/-! ## Spec chunks -/

/-- The chunk numbers a spec of this length occupies. -/
def specChunks (specLen : Nat) : List Nat := List.range ((specLen + specChunkBytes - 1) / specChunkBytes)

/-- One chunk of a spec. -/
def chunkOf (spec : Bytes) (n : Nat) : Bytes := (spec.drop (n * specChunkBytes)).take specChunkBytes

/-! ## Trigger checks -/

section checks

-- `Debug` of a string: in quotes, with its escapes.
variable (quote : String → String)

/-- `capability::validate_tag`. -/
def validateTag (tag : String) : Except String Unit :=
  let (len, quoted) := (tag.utf8ByteSize, quote tag)
  if tag = "" then .error "capability tag must be non-empty"
  else if len > maxTagLen then .error s!"capability tag exceeds {maxTagLen} bytes: {len} bytes"
  else if ¬ tag.toList.all (fun c => c.isLower || c.isDigit || c == '.' || c == '_' || c == '-') then
    .error s!"capability tag has invalid characters (want [a-z0-9._-]): {quoted}"
  else .ok ()

/-- The check of one resource dimension. -/
def validateResource (key : String) (value : Nat) : Except String Unit :=
  let quoted := quote key
  match validateTag quote key with
  | .error e => .error s!"resource dimension {quoted}: {e}"
  | .ok () => if value = 0 then .error s!"resource dimension {quoted} is zero (omit it instead)" else .ok ()

/-- `capability::validate_resources`. -/
def validateResources (resources : List (String × Nat)) : Except String Unit :=
  let len := resources.length
  if len > maxResourceDims then
    .error s!"too many resource dimensions: {len} exceeds the {maxResourceDims} cap"
  else resources.forM fun (key, value) => validateResource quote key value

end checks

end SagaModule

/-- The ledger's wiring and the third-party code it rests on. -/
structure SagaModule where
  id : ModuleId
  /-- The validator set that untagged attempts are assigned over. -/
  valset : Option ModuleId
  /-- The registry whose providers tagged attempts are assigned over. -/
  capabilityRegistry : Option ModuleId
  policy : SagaModule.LeasePolicy
  wire : Wire
  sagaWire : SagaWire
  sha256 : Bytes → Bytes
  /-- `Debug` of a string. -/
  quote : String → String
  /-- The stored bytes of each record kind. -/
  recordBytes : SagaModule.Saga → Bytes
  pendingBytes : SagaModule.PendingIndex → Bytes
  terminalBytes : SagaModule.TerminalIndex → Bytes

namespace SagaModule

variable (S : SagaModule)

/-! ## Reads -/

/-- `pending_shard`: the shard an id's row lives in. -/
def pendingShard (sagaId : SagaId) : Nat := ((S.sha256 (utf8 sagaId)).headD 0).toNat % pendingShards

def load (sagaId : SagaId) : Op (Option Saga) := do
  let s ← view
  pure (record s sagaId)

/-- The chunks with these numbers, joined. -/
def loadChunks (sagaId : SagaId) : List Nat → Op Bytes
  | [] => pure []
  | n :: rest => do
      let s ← view
      let first ← require (chunk s sagaId n) s!"saga {sagaId} is missing a spec chunk"
      let others ← loadChunks sagaId rest
      pure (first ++ others)

/-- `load_spec`: reassemble a spec from its chunks. -/
def loadSpec (sagaId : SagaId) (specLen : Nat) : Op Bytes := loadChunks sagaId (specChunks specLen)

/-- `require`: the saga an index promised. -/
def requireSaga (sagaId : SagaId) : Op Saga := do
  let s ← view
  require (record s sagaId) s!"saga index names a missing saga: {sagaId}"

/-! ## Writes -/

/-- `check_record`: refuse a value the store could not read back. -/
def checkRecord (value : Bytes) (what : String) : Op Unit :=
  let len := value.length
  refuseIf (len > maxRecordBytes) s!"{what} is {len} bytes, over the {maxRecordBytes}-byte store record cap"

/-- `encode_pending`: an empty shard has no record. -/
def encodePending (pending : PendingIndex) : Op (Option PendingIndex) :=
  if pending.isEmpty then pure none
  else do
    checkRecord (S.pendingBytes pending) "pending saga index shard"
    pure (some pending)

/-- `encode_terminal`. -/
def encodeTerminal (terminal : TerminalIndex) : Op (Option TerminalIndex) :=
  if terminal.isEmpty then pure none
  else do
    checkRecord (S.terminalBytes terminal) "terminal saga index"
    pure (some terminal)

/-- `stage_if_changed`. -/
def stageIfChanged (key : Key) (value : Option (Value key)) : Op Unit := do
  let s ← view
  if s key = value then pure ()
  else match value with
    | some value => stage key value
    | none => delete key

/-- `stage_live_count`: a count of zero has no record. -/
def stageLiveCount (origin : SagaOrigin) (live : Nat) : Op Unit :=
  stageIfChanged (.quota origin) (if live > 0 then some live else none)

/-- `claim_live_slot`. -/
def claimLiveSlot (origin : SagaOrigin) : Op Unit := do
  let s ← view
  stageLiveCount origin (liveSagas s origin + 1)

/-- `live_count_after_release`: an underflow is refused, not clamped. -/
def liveCountAfterRelease (origin : SagaOrigin) : Op Nat := do
  let s ← view
  let got := origin.debug
  refuseIf (liveSagas s origin = 0)
    s!"live_saga_count_underflow: {got} ended a saga it never claimed"
  pure (liveSagas s origin - 1)

/-- Both indexes after a record is put. -/
def indexed (sagaId : SagaId) (saga : Saga) (pending : PendingIndex) (terminal : TerminalIndex) :
    PendingIndex × TerminalIndex :=
  if saga.status.isTerminal then (pending.erase sagaId, terminal.insert sagaId (.of saga))
  else (pending.insert sagaId (.of saga), terminal.erase sagaId)

/-- `put`: stage a saga and keep its mirrors in step. Every check comes before any write. -/
def put (sagaId : SagaId) (saga : Saga) : Op Unit := do
  checkRecord (S.recordBytes saga) "saga record"
  let s ← view
  let shard := S.pendingShard sagaId
  let (pending, terminal) := indexed sagaId saga (pendingIn s shard) (terminalOf s)
  let pendingRecord ← S.encodePending pending
  let terminalRecord ← S.encodeTerminal terminal
  let released ← (if saga.status.isTerminal then do
      let live ← liveCountAfterRelease saga.origin
      pure (some live)
    else pure none)
  stage (.record sagaId) saga
  stageIfChanged (.pending shard) pendingRecord
  stageIfChanged .terminal terminalRecord
  match released with
  | none => pure ()
  | some live => stageLiveCount saga.origin live

/-- Delete these chunks. -/
def deleteChunks (sagaId : SagaId) : List Nat → Op Unit
  | [] => pure ()
  | n :: rest => do
      delete (.spec sagaId n)
      deleteChunks sagaId rest

/-- `remove`: drop a saga, its chunks and its index rows. -/
def remove (sagaId : SagaId) (saga : Saga) : Op Unit := do
  deleteChunks sagaId (specChunks saga.specLen)
  delete (.record sagaId)
  let s ← view
  let shard := S.pendingShard sagaId
  let pendingRecord ← S.encodePending ((pendingIn s shard).erase sagaId)
  let terminalRecord ← S.encodeTerminal ((terminalOf s).erase sagaId)
  stageIfChanged (.pending shard) pendingRecord
  stageIfChanged .terminal terminalRecord

/-- Stage these chunks of a spec. -/
def stageChunks (sagaId : SagaId) (spec : Bytes) : List Nat → Op Unit
  | [] => pure ()
  | n :: rest => do
      stage (.spec sagaId n) (chunkOf spec n)
      stageChunks sagaId spec rest

/-! ## Assignment -/

/-- The providers of a tag, where the registry answers. -/
def providers (capability : String) (demands : List (String × Nat)) : Op (Option (List Bytes)) :=
  match S.capabilityRegistry with
  | none => pure none
  | some registry => do
      let query := if demands.isEmpty then CapabilityQuery.providers capability
        else .capableProviders capability demands
      let reply ← tryQuery registry (S.sagaWire.capabilityQuery.encode query)
      match reply with
      | .error _ => pure none
      | .ok bytes =>
        match S.sagaWire.capabilityReply.decode bytes with
        | .ok (.providers keys) => pure (some keys)
        | .ok .other | .error _ => pure none

/-- The validators, where the validator set answers. -/
def validatorPool : Op (Option (List Bytes)) :=
  match S.valset with
  | none => pure none
  | some valset => do
      let reply ← tryQuery valset (S.wire.valsetQuery.encode .validators)
      match reply with
      | .error _ => pure none
      | .ok bytes =>
        match S.wire.valsetReply.decode bytes with
        | .ok (.validators keys) => pure (some keys)
        | .ok (.residents _) | .ok (.meshWindow _) | .error _ => pure none

/-- `assignment_pool`: whom an attempt may be assigned to. -/
def assignmentPool (capability : Option String) (demands : List (String × Nat)) :
    Op (Option (List Bytes)) := do
  let pool ← (match capability with
    | some tag => S.providers tag demands
    | none => S.validatorPool)
  pure (pool.filter (· ≠ []))

/-- `pick_assignee`: the rendezvous pick. -/
def pickAssignee (pool : List Bytes) (sagaId : SagaId) (attempt height : Nat) : Option Bytes :=
  if pool = [] then none
  else
    let digest := S.sha256 (utf8 sagaId ++ Borsh.le 4 attempt ++ u64le height)
    let pick := ((Borsh.readLe 8 digest).map Prod.fst).getD 0
    pool[pick % pool.length]?

/-- `compute_assignee_excluding`. -/
def computeAssigneeExcluding (sagaId : SagaId) (capability : Option String)
    (demands : List (String × Nat)) (attempt height : Nat) (excluded : Option Bytes) :
    Op (Option Bytes) := do
  let pool ← S.assignmentPool capability demands
  match pool with
  | none => pure none
  | some pool =>
    let pool := match excluded with
      | some key => pool.filter (· ≠ key)
      | none => pool
    pure (S.pickAssignee pool sagaId attempt height)

/-- `valset::members_and_residents`, one tier: a reply of another kind is an error. -/
def standingTier (valset : ModuleId) (query : ValsetQuery) (what : String)
    (keys? : ValsetReply → Option (List Bytes)) : Op (List Bytes) := do
  let reply ← Handler.query valset (S.wire.valsetQuery.encode query)
  match S.wire.valsetReply.decode reply with
  | .error text => fail (.module text)
  | .ok reply =>
    let got := S.wire.valsetReply.debug reply
    require (keys? reply) s!"valset answered a {what} query with {got}"

/-- The keys of a validators reply. -/
def validatorsReply? : ValsetReply → Option (List Bytes)
  | .validators keys => some keys
  | .residents _ | .meshWindow _ => none

/-- The keys of a residents reply. -/
def residentsReply? : ValsetReply → Option (List Bytes)
  | .residents keys => some keys
  | .validators _ | .meshWindow _ => none

/-- `valset::members_and_residents`. -/
def membersAndResidents (valset : ModuleId) : Op (List Bytes) := do
  let validators ← S.standingTier valset .validators "Validators" validatorsReply?
  let residents ← S.standingTier valset .residents "Residents" residentsReply?
  pure (validators ++ residents)

/-- The announced providers of a tag, as a claim needs them. -/
def requireProvider (tag : String) (key : Bytes) : Op Unit := do
  let registry ← require S.capabilityRegistry
    "accept_not_capability_provider: no capability registry is configured"
  let reply ← tryQuery registry (S.sagaWire.capabilityQuery.encode (.providers tag))
  match reply with
  | .error _ =>
    fail (.module "accept_not_capability_provider: capability registry query failed")
  | .ok bytes =>
    match S.sagaWire.capabilityReply.decode bytes with
    | .error text => fail (.module text)
    | .ok .other => fail (.module
        "accept_not_capability_provider: capability registry answered an unexpected reply")
    | .ok (.providers keys) =>
      let quoted := S.quote tag
      refuseIf (key ∉ keys)
        s!"accept_not_capability_provider: submitter is not an announced provider of {quoted}"

/-- `require_accept_standing`: whom a claim is open to. -/
def requireAcceptStanding (capability : Option String) (key : Bytes) : Op Unit := do
  let valset ← require S.valset "accept_no_standing: no valset is configured"
  let standing ← S.membersAndResidents valset
  refuseIf (key ∉ standing)
    "accept_no_standing: submitter holds no current standing (validator or resident)"
  match capability with
  | none => pure ()
  | some tag => S.requireProvider tag key

/-! ## Outputs -/

/-- `emit_callback`: tell the requester how its saga ended. -/
def emitCallback (sagaId : SagaId) (saga : Saga) (outcome : SagaOutcome) : Op Unit :=
  match saga.replyTo with
  | some target =>
    emitMsg ⟨target, S.sagaWire.callback.encode ⟨sagaId, saga.replyPayload, outcome⟩⟩
  | none => pure ()

/-- `cancel_attempt`: stop the worker that holds an attempt. -/
def cancelAttempt (sagaId : SagaId) (attempt : Nat) (assignee : Option Bytes) : Op Unit :=
  match assignee with
  | some key => emitEvent ⟨S.id, S.sagaWire.workerControl.encode ⟨sagaId, attempt, key⟩⟩
  | none => pure ()

/-- The order, or the announcement, of the current attempt. -/
def emitRequest (sagaId : SagaId) (saga : Saga) (spec : Bytes) : Op Unit :=
  emitEvent ⟨S.id, S.sagaWire.workerRequest.encode
    ⟨sagaId, saga.attempt, spec, saga.deadline, saga.assignee⟩⟩

/-- `request_assigned`: grant the attempt's lease and ask for the work. -/
def requestAssigned (env : Env) (sagaId : SagaId) (saga : Saga) (spec : Bytes) (assignee : Option Bytes) :
    Op Unit := do
  let saga := { saga with
    assignee := assignee
    leaseExpiresAt := boundedLeaseExpiry env.height assignee saga.leaseViews saga.deadline }
  S.put sagaId saga
  S.emitRequest sagaId saga spec

/-- `lease_and_request_excluding`: a pinned saga leases every attempt to its key. -/
def leaseAndRequestExcluding (env : Env) (sagaId : SagaId) (saga : Saga) (spec : Bytes)
    (excluded : Option Bytes) : Op Unit := do
  let assignee ← (match saga.pinnedAssignee with
    | some key => pure (some key)
    | none => S.computeAssigneeExcluding sagaId saga.capability saga.demands saga.attempt env.height excluded)
  S.requestAssigned env sagaId saga spec assignee

/-! ## Operations -/

/-- The bounds a trigger's fields keep. -/
def checkTrigger (spec : Bytes) (replyPayload : Bytes) (maxAttempts : Nat) (capability : Option String)
    (demands : List (String × Nat)) (pinnedAssignee : Option Bytes) : Op Unit := do
  let (specLen, payloadLen) := (spec.length, replyPayload.length)
  refuseIf (maxAttempts = 0) "trigger max_attempts must be >= 1"
  refuseIf (specLen > maxSpecBytes) s!"trigger spec is {specLen} bytes; the cap is {maxSpecBytes}"
  refuseIf (payloadLen > maxReplyPayloadBytes)
    s!"trigger reply_payload is {payloadLen} bytes; the cap is {maxReplyPayloadBytes}"
  (match capability with
    | none => pure ()
    | some tag => do
        let len := tag.utf8ByteSize
        refuseIf (tag = "") "trigger capability must be non-empty when set"
        refuseIf (len > maxCapabilityBytes)
          s!"trigger capability is {len} bytes; the cap is {maxCapabilityBytes}")
  (match validateResources S.quote demands with
    | .ok () => pure ()
    | .error text => fail (.module text))
  match pinnedAssignee with
  | none => pure ()
  | some key => do
      let len := key.length
      refuseIf (key = []) "trigger pinned_assignee must be non-empty when set"
      refuseIf (len > maxAssigneeBytes)
        s!"trigger pinned_assignee is {len} bytes; the cap is {maxAssigneeBytes}"

/-- A callback names a module that can take it. -/
def checkReplyTo (env : Env) (replyTo : Option ModuleId) : Op Unit :=
  match replyTo with
  | none => pure ()
  | some target => do
      refuseIf (target = env.me) "trigger reply_to must not target the saga module itself"
      let root ← Handler.moduleRoot target
      refuseIf root.isNone s!"trigger reply_to targets unknown module {target}"

/-- An origin below its live cap. -/
def checkQuota (origin : SagaOrigin) : Op Unit := do
  let s ← view
  let (live, cap) := (liveSagas s origin, liveSagaCap origin)
  refuseIf (live ≥ cap) s!"origin_live_saga_cap: {live} live sagas is this origin's {cap} cap"

/-- `Trigger`: a duplicate id is a no-op. -/
def handleTrigger (env : Env) (sagaId : SagaId) (spec : Bytes) (replyTo : Option ModuleId)
    (replyPayload : Bytes) (deadline : Option Nat) (maxAttempts : Nat) (leaseViews : Option Nat)
    (capability : Option String) (demands : List (String × Nat)) (pinnedAssignee : Option Bytes) :
    Op Unit := do
  let actor := S.quote env.origin.actorString
  refuseIf (¬ ownsId env.origin sagaId)
    s!"trigger saga_id must be in the trigger's own namespace {actor}"
  let given := sagaId.utf8ByteSize
  refuseIf (given > maxSagaIdBytes) s!"trigger saga_id is {given} bytes; the cap is {maxSagaIdBytes}"
  let existing ← load sagaId
  if existing.isSome then pure ()
  else do
    S.checkTrigger spec replyPayload maxAttempts capability demands pinnedAssignee
    checkReplyTo env replyTo
    let origin ← ofExcept (sagaOrigin env.origin)
    checkQuota origin
    let now := env.consensusTime
    S.leaseAndRequestExcluding env sagaId
      { origin, replyTo, replyPayload, specLen := spec.length, capability, demands, status := .pending,
        attempt := 0, maxAttempts, assignee := none, pinnedAssignee, leaseViews, leaseExpiresAt := none,
        deadline, result := none, error := none, createdAt := now, updatedAt := now } spec none
    claimLiveSlot origin
    stageChunks sagaId spec (specChunks spec.length)

/-- Does the submitter hold the attempt? -/
def holds (env : Env) (saga : Saga) : Bool :=
  match env.origin, saga.assignee with
  | .external key, some assignee => key = assignee
  | _, _ => false

/-- Who may land a result: under the strict policy only the assignee of the attempt. -/
def mayLand (env : Env) (saga : Saga) : Bool :=
  match S.policy with
  | .open => true
  | .strict => holds env saga

/-- End a saga: call its requester back and put the record. -/
def finish (sagaId : SagaId) (saga : Saga) (outcome : SagaOutcome) : Op Unit := do
  S.emitCallback sagaId saga outcome
  S.put sagaId saga

/-- What a result that lands does. An error uses the attempt up. -/
def landResult (env : Env) (sagaId : SagaId) (saga : Saga) : Except String Bytes → Op Unit
  | .ok result => do
      let len := result.length
      refuseIf (len > maxResultBytes) s!"oracle result is {len} bytes; the cap is {maxResultBytes}"
      S.finish sagaId { saga with status := .done, result := some result } (.done result)
  | .error error =>
    if saga.attempt + 1 < saga.maxAttempts then do
      let spec ← loadSpec sagaId saga.specLen
      S.leaseAndRequestExcluding env sagaId { saga with attempt := saga.attempt + 1 } spec none
    else S.finish sagaId { saga with status := .failed, error := some error } (.failed error)

/-- An oversized error is refused before anything else. -/
def checkError : Except String Bytes → Op Unit
  | .ok _ => pure ()
  | .error error =>
    let len := error.utf8ByteSize
    refuseIf (len > maxErrorBytes) s!"oracle error is {len} bytes; the cap is {maxErrorBytes}"

/-- The saga an operation names, if it is live and, where an attempt is named, in that attempt. -/
def current (s : Store) (sagaId : SagaId) (attempt : Option Nat) : Option Saga :=
  (record s sagaId).filter fun saga => !saga.status.isTerminal && attempt.all (· = saga.attempt)

/-- `OracleResult`: an unknown or ended saga, a stale attempt and a foreign result are no-ops. -/
def handleOracleResult (env : Env) (sagaId : SagaId) (attempt : Nat) (outcome : Except String Bytes) :
    Op Unit := do
  let s ← view
  match current s sagaId (some attempt) with
  | none => pure ()
  | some saga =>
    if S.mayLand env saga then do
      checkError outcome
      S.landResult env sagaId { saga with updatedAt := env.consensusTime } outcome
    else pure ()

/-- The lease after a renewal: extended in the second half of its window. -/
def renewed (height : Nat) (saga : Saga) (expiry : Nat) : Option Nat :=
  let window := saga.leaseViews.getD defaultLeaseViews
  if height ≥ expiry - window / 2 then
    match boundedLeaseExpiry height saga.assignee saga.leaseViews saga.deadline with
    | some next => if next > expiry then some next else saga.leaseExpiresAt
    | none => saga.leaseExpiresAt
  else saga.leaseExpiresAt

/-- `RenewLease`. -/
def handleRenewLease (env : Env) (sagaId : SagaId) (attempt : Nat) : Op Unit := do
  let s ← view
  match current s sagaId (some attempt) with
  | none => pure ()
  | some saga =>
    match saga.leaseExpiresAt with
    | none => pure ()
    | some expiry =>
      if holds env saga ∧ env.height < expiry then
        S.put sagaId { saga with
          leaseExpiresAt := renewed env.height saga expiry
          updatedAt := env.consensusTime }
      else pure ()

/-- Hand a saga to another assignee, as its origin may. -/
def reassign (env : Env) (sagaId : SagaId) (saga : Saga) : Op Unit := do
  refuseIf saga.pinnedAssignee.isSome "pinned saga cannot be reassigned"
  refuseIf (saga.attempt + 1 ≥ saga.maxAttempts) "reassignment attempts exhausted"
  let moved := { saga with attempt := saga.attempt + 1, updatedAt := env.consensusTime }
  let found ← S.computeAssigneeExcluding sagaId saga.capability saga.demands moved.attempt env.height
    saga.assignee
  let next ← require found "no alternate assignee is available"
  let spec ← loadSpec sagaId saga.specLen
  S.cancelAttempt sagaId saga.attempt saga.assignee
  S.requestAssigned env sagaId moved spec (some next)

/-- `Reassign`. -/
def handleReassign (env : Env) (sagaId : SagaId) (attempt : Nat) : Op Unit := do
  let s ← view
  match current s sagaId (some attempt) with
  | none => pure ()
  | some saga => do
      let origin ← ofExcept (sagaOrigin env.origin)
      if saga.origin = origin then S.reassign env sagaId saga else pure ()

/-- The key a claim is made under. -/
def acceptingKey (env : Env) : Except Error Bytes :=
  match env.origin with
  | .external key =>
    if key = [] then .error (.module "Accept requires a non-empty submitter id") else .ok key
  | _ => .error (.module "Accept requires an external origin (the accepting node's key)")

/-- `Accept`: the first claim of an unassigned attempt wins its lease. -/
def handleAccept (env : Env) (sagaId : SagaId) (attempt : Nat) : Op Unit := do
  let key ← ofExcept (acceptingKey env)
  let s ← view
  match current s sagaId (some attempt) with
  | none => pure ()
  | some saga =>
    if saga.assignee.isSome then pure ()
    else do
      S.requireAcceptStanding saga.capability key
      let saga := { saga with
        assignee := some key
        leaseExpiresAt := boundedLeaseExpiry env.height (some key) saga.leaseViews saga.deadline
        updatedAt := env.consensusTime }
      let spec ← loadSpec sagaId saga.specLen
      S.put sagaId saga
      S.emitRequest sagaId saga spec

/-- The live sagas whose time has come, oldest first. -/
def expired (s : Store) (now : Nat) : List SagaId :=
  ((((loadPending s).toList.filterMap fun (id, row) =>
      row.due.bind fun due => if now ≥ due then some (due, id) else none).mergeSort
    fun a b => decide (a.1 < b.1 ∨ a.1 = b.1 ∧ a.2 ≤ b.2)).map Prod.snd).take crankBudget

/-- One expired saga: its deadline ends it, an expired lease uses the attempt up. -/
def crankOne (env : Env) (sagaId : SagaId) : Op Unit := do
  let saga ← requireSaga sagaId
  let now := env.consensusTime
  let moved := { saga with updatedAt := now }
  if saga.deadline.any (now ≥ ·) then do
    S.cancelAttempt sagaId saga.attempt saga.assignee
    S.finish sagaId { moved with status := .timedOut } .timedOut
  else if saga.attempt + 1 < saga.maxAttempts then do
    let spec ← loadSpec sagaId saga.specLen
    S.cancelAttempt sagaId saga.attempt saga.assignee
    S.leaseAndRequestExcluding env sagaId { moved with attempt := saga.attempt + 1 } spec saga.assignee
  else do
    let error := "lease attempts exhausted"
    S.cancelAttempt sagaId saga.attempt saga.assignee
    S.finish sagaId { moved with status := .failed, error := some error } (.failed error)

def crankAll (env : Env) : List SagaId → Op Unit
  | [] => pure ()
  | id :: rest => do
      S.crankOne env id
      crankAll env rest

/-- `Crank`: permissionless, and bounded. -/
def handleCrank (env : Env) : Op Unit := do
  let s ← view
  S.crankAll env (expired s env.consensusTime)

/-- `Cancel`, by the trigger's origin. -/
def handleCancel (env : Env) (sagaId : SagaId) : Op Unit := do
  let s ← view
  match current s sagaId none with
  | none => pure ()
  | some saga => do
      let origin ← ofExcept (sagaOrigin env.origin)
      if saga.origin = origin then do
        S.cancelAttempt sagaId saga.attempt saga.assignee
        S.finish sagaId { saga with status := .cancelled, updatedAt := env.consensusTime } .cancelled
      else pure ()

def pruneAll (origin : SagaOrigin) : List SagaId → Op Unit
  | [] => pure ()
  | id :: rest => do
      let found ← load id
      (match found with
        | none => pure ()
        | some saga => if saga.status.isTerminal ∧ saga.origin = origin then S.remove id saga else pure ())
      pruneAll origin rest

/-- `Prune`: terminal sagas of the submitter. -/
def handlePrune (env : Env) (sagaIds : List SagaId) : Op Unit := do
  let origin ← ofExcept (sagaOrigin env.origin)
  S.pruneAll origin sagaIds

/-- One decoded operation. -/
def handle (env : Env) : SagaMsg → Op Unit
  | .trigger sagaId spec replyTo replyPayload deadline maxAttempts leaseViews capability demands pinned =>
    S.handleTrigger env sagaId spec replyTo replyPayload deadline maxAttempts leaseViews capability
      demands pinned
  | .oracleResult sagaId attempt outcome => S.handleOracleResult env sagaId attempt outcome
  | .renewLease sagaId attempt => S.handleRenewLease env sagaId attempt
  | .reassign sagaId attempt => S.handleReassign env sagaId attempt
  | .accept sagaId attempt => S.handleAccept env sagaId attempt
  | .crank => S.handleCrank env
  | .cancel sagaId => S.handleCancel env sagaId
  | .prune sagaIds => S.handlePrune env sagaIds

/-- Remove these terminal sagas. -/
def evictAll : List SagaId → Op Unit
  | [] => pure ()
  | id :: rest => do
      let saga ← requireSaga id
      S.remove id saga
      evictAll rest

/-- The retention trim that ends every operation. -/
def trim : Op Unit := do
  let s ← view
  S.evictAll (terminalEvictions (terminalOf s))

/-- One operation with its trim. -/
def executeMsg (env : Env) (msg : SagaMsg) : Op Unit := do
  S.handle env msg
  S.trim

def execute (env : Env) (msg : Msg) : Op Unit :=
  match S.sagaWire.sagaMsg.decode msg.payload with
  | .ok msg => S.executeMsg env msg
  | .error text => fail (.module text)

end SagaModule

end Ducktape
