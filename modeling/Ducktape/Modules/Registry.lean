import Ducktape.Lib.SortedSet
import Ducktape.Modules.Wire
import Ducktape.Sdk.Handler

/-! # The code registry

Which code every hot-swappable module runs: per module the history of activations, whose last entry is
the running code, and at most one pending swap with the readiness its validators signalled. Governance
registers, schedules and cancels, validators signal, and the boundary tick `advance` activates every swap
that is armed in the state the previous block committed.

One record per module behind a sorted roster, and one table of the data-plane lanes the modules declare. -/

namespace Ducktape

open Lib Handler

/-- A swap that reached its height without ever being ready: it never arms and may be replaced. -/
def ScheduledSwap.staleAt (swap : ScheduledSwap) (height : Nat) : Bool :=
  swap.activationHeight ≤ height && swap.readyAt.isNone

namespace Modules

def minSwapLead : Nat := 3
def maxModules : Nat := 1024
def maxRosterRecordBytes : Nat := 512 * 1024
def maxLaneTableBytes : Nat := 64 * 1024
def reservedLaneIds : List UInt8 := [1, 6]
def maxLaneId : UInt8 := 99
def maxLaneNameBytes : Nat := 32

/-- One registered module's code state. -/
structure ModuleEntry where
  kind : Kind
  pending : Option ScheduledSwap
  /-- Every activation in block order; the last one is the active code. -/
  history : List Activation
  deriving DecidableEq

/-- The running code's hash, empty for an admission that has not reached its boundary. -/
def ModuleEntry.activeCodeHash (entry : ModuleEntry) : Bytes :=
  (entry.history.getLast?.map (·.codeHash)).getD []

/-- A declared lane and the module that owns it. -/
structure LaneRecord where
  id : UInt8
  moduleId : String
  name : String
  stream : Option LaneStream
  deriving DecidableEq

/-- One genesis seed. -/
structure Seed where
  kind : Kind
  codeHash : Bytes
  lanes : List LaneDecl
  deriving DecidableEq

inductive Key
  | mod (moduleId : String)
  | modules
  | lanes
  deriving DecidableEq

/-- The record under each key. -/
abbrev Value : Key → Type
  | .mod _ => ModuleEntry
  | .modules => List String
  | .lanes => List LaneRecord

abbrev Store := Records Key Value

abbrev Op (α : Type) := Handler Key Value α

section reads

variable (s : Store)

def entry (moduleId : String) : Option ModuleEntry := s (.mod moduleId)

/-- Every registered module id, sorted. -/
def roster : List String := (s .modules).getD []

/-- Every declared lane, ascending by id. -/
def laneTable : List LaneRecord := (s .lanes).getD []

end reads

/-- `lane_name_is_well_formed`. -/
def laneNameIsWellFormed (name : String) : Bool :=
  name ≠ "" && name.utf8ByteSize ≤ maxLaneNameBytes &&
    name.toList.all fun c => c.isLower || c.isDigit || c == '_'

/-- Admit one declaration of `moduleId` into the table. -/
def admitLane (table : List LaneRecord) (moduleId : String) (decl : LaneDecl) :
    Except Error (List LaneRecord) :=
  let id := decl.id.toNat
  if decl.id ∈ reservedLaneIds then
    .error (.module s!"lane id {id} is a kernel lane and is never declarable")
  else if decl.id = 0 ∨ decl.id > maxLaneId then
    .error (.module (s!"lane id {id} out of range: declarable ids are 1..={maxLaneId} " ++
      "(above that a lane's stream port collides with another's datagram port)"))
  else if !laneNameIsWellFormed decl.name then
    let name := decl.name.quote
    .error (.module s!"lane name {name} is malformed: 1..={maxLaneNameBytes} bytes of [a-z0-9_]")
  else if table.any fun lane => lane.moduleId == moduleId && lane.name == decl.name then
    let name := decl.name.quote
    .error (.module s!"module {moduleId} already declares a lane named {name}")
  else
    match search (· < ·) decl.id (table.map (·.id)) with
    | .ok _ =>
      let owner := ((table.find? fun lane => lane.id == decl.id).map (·.moduleId)).getD ""
      .error (.module s!"lane id {id} is already declared by module {owner}")
    | .error position => .ok (table.insertIdx position ⟨decl.id, moduleId, decl.name, decl.stream⟩)

/-- `admit_lanes`: all the declarations, or none. -/
def admitLanes (table : List LaneRecord) (moduleId : String) (decls : List LaneDecl) :
    Except Error (List LaneRecord) :=
  decls.foldlM (fun table decl => admitLane table moduleId decl) table

/-- `require_hash_len`. -/
def requireHashLen (codeHash : Bytes) : Op Unit :=
  let got := codeHash.length
  refuseIf (codeHash.length ≠ codeHashLen) s!"code_hash must be {codeHashLen} bytes, got {got}"

/-- `require_system`: the boundary tick is injected only. -/
def requireSystem (env : Env) : Except Error Unit :=
  match env.origin with
  | .system => .ok ()
  | other =>
    let got := other.debug
    .error (.module s!"modules Advance is a system boundary tick, got {got}")

end Modules

/-- The module's wiring and the third-party code it rests on. -/
structure Modules where
  id : ModuleId
  /-- The validator set the readiness denominator comes from. -/
  valsetId : ModuleId
  /-- The one module whose follow-ups may register, schedule and cancel. -/
  governanceId : ModuleId
  wire : Wire
  modulesMsg : Codec ModulesMsg
  /-- The stored bytes of the roster. -/
  rosterBytes : List String → Bytes
  /-- The stored bytes of the lane table. -/
  laneTableBytes : List Modules.LaneRecord → Bytes

namespace Modules

variable (M : Modules)

/-! ## Records -/

/-- `rostered_entry`: a rostered id has its record. -/
def rosteredEntry (moduleId : String) : Op ModuleEntry := do
  let s ← view
  require (entry s moduleId) "missing module record"

/-- Stage the roster, if its record fits. -/
def storeRoster (roster : List String) : Op Unit := do
  let len := (M.rosterBytes roster).length
  refuseIf (len > maxRosterRecordBytes)
    s!"module roster record too large: {len} > {maxRosterRecordBytes} bytes"
  stage .modules roster

/-- Stage the lane table, if its record fits. -/
def storeLaneTable (table : List LaneRecord) : Op Unit := do
  let len := (M.laneTableBytes table).length
  refuseIf (len > maxLaneTableBytes)
    s!"lane table record too large: {len} > {maxLaneTableBytes} bytes"
  stage .lanes table

/-- `register_entry`. -/
def registerEntry (roster : List String) (moduleId : String) (entry : ModuleEntry) : Op Unit :=
  match search (· < ·) moduleId roster with
  | .ok _ => fail (.module "module roster carries an id with no record")
  | .error position => do
      refuseIf (roster.length ≥ maxModules) s!"module cap reached ({maxModules})"
      M.storeRoster (roster.insertIdx position moduleId)
      stage (.mod moduleId) entry

/-- `declare_lanes`. -/
def declareLanes (moduleId : String) (decls : List LaneDecl) : Op Unit :=
  if decls = [] then pure ()
  else do
    let s ← view
    let table ← ofExcept (admitLanes (laneTable s) moduleId decls)
    M.storeLaneTable table

/-- `release_lanes`: the ids become declarable again. -/
def releaseLanes (moduleId : String) : Op Unit := do
  let s ← view
  let table := (laneTable s).filter (·.moduleId ≠ moduleId)
  if table.length = (laneTable s).length then pure () else M.storeLaneTable table

/-! ## Genesis -/

/-- List the module in the roster, unless it is there. -/
def enrol (roster : List String) (moduleId : String) : Op Unit :=
  match search (· < ·) moduleId roster with
  | .ok _ => pure ()
  | .error position => M.storeRoster (roster.insertIdx position moduleId)

/-- `seed`: a hash of another width is a wiring bug. -/
def seed (moduleId : String) (given : Seed) : Op Unit := do
  refuseIf (given.codeHash.length ≠ codeHashLen) s!"genesis code hash must be {codeHashLen} bytes"
  M.declareLanes moduleId given.lanes
  let s ← view
  M.enrol (roster s) moduleId
  stage (.mod moduleId) ⟨given.kind, none, [⟨0, given.codeHash⟩]⟩

/-- `finish_seed`: publish the seeds, unless the store was seeded before. -/
def finishSeed : Op Unit := do
  let committed ← committed
  if (committed .modules).isSome then Handler.discard else publish

/-- The seeds of the genesis, in order. -/
def seedAll : List (String × Seed) → Op Unit
  | [] => pure ()
  | (moduleId, given) :: seeds => do
      refuseIf (given.codeHash.length ≠ codeHashLen) "initial module code hash must be 32 bytes"
      M.seed moduleId given
      seedAll seeds

/-- The genesis, with the modules its parameters name. -/
def initialise (seeds : List (String × Seed)) : Op Unit := do
  M.seedAll seeds
  finishSeed

/-! ## Operations -/

/-- `members`: the current validator set. -/
def members : Op (List Bytes) := do
  let reply ← query M.valsetId (M.wire.valsetQuery.encode .validators)
  match M.wire.valsetReply.decode reply with
  | .ok (.validators members) => pure members
  | .ok other =>
    let got := M.wire.valsetReply.debug other
    fail (.module s!"valset answered a Validators query with {got}")
  | .error text => fail (.module text)

/-- `require_governance_or_system`. -/
def requireGovernanceOrSystem (env : Env) : Except Error Unit :=
  let refusal : Error :=
    let (gate, got) := (M.governanceId, env.origin.debug)
    .module s!"modules schedule/cancel/register only via the {gate} module or system origin, got {got}"
  match env.origin with
  | .system => .ok ()
  | .module id => if id = M.governanceId then .ok () else .error refusal
  | .external _ | .program _ => .error refusal

def handleRegisterModule (env : Env) (moduleId : String) (kind : Kind) (codeHash : Bytes)
    (lanes : List LaneDecl) : Op Unit := do
  ofExcept (M.requireGovernanceOrSystem env)
  requireHashLen codeHash
  let s ← view
  refuseIf ((entry s moduleId).isSome)
    s!"module {moduleId} is already registered (code changes go through ScheduleSwap)"
  M.declareLanes moduleId lanes
  let s ← view
  M.registerEntry (roster s) moduleId ⟨kind, none, [⟨env.height, codeHash⟩]⟩

/-- The minimum lead: activation is strictly in the future. -/
def requireLead (env : Env) (activationHeight : Nat) : Op Unit :=
  let floor := min (env.height + minSwapLead) u64Max
  refuseIf (activationHeight ≤ floor)
    s!"activation_height {activationHeight} must exceed height+MIN_SWAP_LEAD ({floor})"

/-- A swap as it is scheduled: nobody is ready yet. -/
def scheduled (name : String) (activationHeight : Nat) (codeHash : Bytes) : ScheduledSwap :=
  ⟨name, activationHeight, codeHash, [], none⟩

def handleScheduleSwap (env : Env) (name moduleId : String) (activationHeight : Nat) (codeHash : Bytes) :
    Op Unit := do
  ofExcept (M.requireGovernanceOrSystem env)
  requireHashLen codeHash
  let s ← view
  let entry ← require (entry s moduleId)
    s!"cannot schedule a swap for unregistered module {moduleId}"
  requireLead env activationHeight
  refuseIf (codeHash = entry.activeCodeHash) "scheduled code_hash equals the active code (no-op swap)"
  -- A stale pending never arms, so a new schedule replaces it.
  refuseIf (entry.pending.any fun swap => !swap.staleAt env.height)
    s!"module {moduleId} already has a pending swap (cancel it first)"
  stage (.mod moduleId) { entry with pending := some (scheduled name activationHeight codeHash) }

/-- The admission of a new module: its entry runs no code until the boundary. -/
def handleScheduleRegister (env : Env) (name moduleId : String) (activationHeight : Nat) (kind : Kind)
    (codeHash : Bytes) (lanes : List LaneDecl) : Op Unit := do
  ofExcept (M.requireGovernanceOrSystem env)
  requireHashLen codeHash
  refuseIf (moduleId = "") "module_id must not be empty"
  let root ← Handler.moduleRoot moduleId
  refuseIf root.isSome s!"module id {moduleId} is already live on this host"
  let s ← view
  refuseIf ((entry s moduleId).isSome)
    s!"module {moduleId} is already registered (code changes go through ScheduleSwap)"
  requireLead env activationHeight
  M.declareLanes moduleId lanes
  let s ← view
  M.registerEntry (roster s) moduleId ⟨kind, some (scheduled name activationHeight codeHash), []⟩

/-- The roster without the module. -/
def unlist (roster : List String) (moduleId : String) : List String :=
  match search (· < ·) moduleId roster with
  | .ok position => roster.eraseIdx position
  | .error _ => roster

/-- Free the module's roster slot; an empty roster is an absent record. -/
def leaveRoster (roster : List String) (moduleId : String) : Op Unit :=
  if unlist roster moduleId = [] then delete .modules
  else stage .modules (unlist roster moduleId)

def handleCancelSwap (env : Env) (name moduleId : String) : Op Unit := do
  ofExcept (M.requireGovernanceOrSystem env)
  let s ← view
  let entry ← require (entry s moduleId) s!"no such module {moduleId}"
  let swap ← require (entry.pending.filter fun swap => swap.name = name)
    "no matching pending swap to cancel"
  let due : Bool := swap.activationHeight ≤ env.height
  refuseIf (¬ (!due || swap.staleAt env.height)) "cannot cancel: activation height already reached"
  -- A cancelled admission never ran: its entry goes, with its roster slot and its lanes.
  if entry.activeCodeHash = [] then do
    leaveRoster (roster s) moduleId
    delete (.mod moduleId)
    M.releaseLanes moduleId
  else stage (.mod moduleId) { entry with pending := none }

/-- The swap with one more signal, and with its readiness latched when that signal covers the members. -/
def signalled (members : List Bytes) (pubkey : Bytes) (height : Nat) (swap : ScheduledSwap) : ScheduledSwap :=
  let readiness := match search (· < ·) pubkey swap.readiness with
    | .ok _ => swap.readiness
    | .error position => swap.readiness.insertIdx position pubkey
  let coversMemberSet := !members.isEmpty && members.all fun member =>
    (search (· < ·) member readiness).toOption.isSome
  let firstCover := coversMemberSet && swap.readyAt.isNone && !swap.staleAt height
  { swap with readiness, readyAt := if firstCover then some height else swap.readyAt }

def handleSwapReady (env : Env) (name moduleId : String) (codeHash : Bytes) : Op Unit :=
  match env.origin with
  | .external pubkey => do
      let members ← M.members
      refuseIf (pubkey ∉ members) "SwapReady submitter is not a current validator-set member"
      let s ← view
      let entry ← require (entry s moduleId) s!"no such module {moduleId}"
      let swap ← require (entry.pending.filter fun swap => swap.name = name ∧ swap.codeHash = codeHash)
        "SwapReady does not match the pending swap (name/module/code_hash)"
      stage (.mod moduleId) { entry with pending := some (signalled members pubkey env.height swap) }
  | other =>
    let got := other.debug
    fail (.module s!"SwapReady requires an external validator submitter, got {got}")

/-! ## The boundary tick -/

/-- The modules whose committed pending swap is armed. -/
def armedSwaps (committed : Store) (height : Nat) : List String :=
  (roster committed).filter fun moduleId =>
    ((entry committed moduleId).bind (·.pending)).any (·.armedAt height)

/-- Activate the pending swap of one module, over the staged view. -/
def flipOne (height : Nat) (moduleId : String) : Op Unit := do
  let entry ← rosteredEntry moduleId
  match entry.pending with
  | none => pure ()
  | some swap =>
    stage (.mod moduleId)
      { entry with pending := none, history := entry.history ++ [⟨height, swap.codeHash⟩] }

/-- Activate the pending swap of each module. -/
def flipAll (height : Nat) : List String → Op Unit
  | [] => pure ()
  | moduleId :: rest => do
      flipOne height moduleId
      flipAll height rest

/-- `handle_advance`: what is armed is decided over the committed state. -/
def handleAdvance (env : Env) : Op Unit := do
  ofExcept (requireSystem env)
  let committed ← committed
  flipAll env.height (armedSwaps committed env.height)

/-- One decoded operation. -/
def handleMsg (env : Env) : ModulesMsg → Op Unit
  | .registerModule moduleId kind codeHash lanes => M.handleRegisterModule env moduleId kind codeHash lanes
  | .scheduleSwap name moduleId activationHeight codeHash =>
    M.handleScheduleSwap env name moduleId activationHeight codeHash
  | .scheduleRegister name moduleId kind activationHeight codeHash lanes =>
    M.handleScheduleRegister env name moduleId activationHeight kind codeHash lanes
  | .cancelSwap name moduleId => M.handleCancelSwap env name moduleId
  | .swapReady name moduleId codeHash => M.handleSwapReady env name moduleId codeHash
  | .advance => handleAdvance env

end Modules

end Ducktape
