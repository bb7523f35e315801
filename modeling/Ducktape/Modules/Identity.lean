import Std.Data.ExtTreeMap
import Std.Data.ExtTreeSet
import Ducktape.Sdk.Handler

/-! # The account registry

Identity keeps numbered accounts, each held by an association of keys, run as a program on a
controller's behalf, or revoked. Its store has five kinds of records: the accounts, the key index,
the admission counter of each key, the set of accounts each controller is named by, and the next
number. Every operation decides all of its writes before it stages any.

The record codec and the signature schemes are third-party code and enter as the fields of
`Identity`. -/

namespace Ducktape

open Lib Handler

/-! ## Keys and signatures -/

/-- The third-party signature code behind the key schemes. -/
structure Signatures where
  /-- Do the bytes decode as a compressed curve point of the scheme? -/
  sec1Point : KeyScheme → Bytes → Bool
  /-- Scheme, public key, namespace, preimage, proof. -/
  verifies : KeyScheme → Bytes → Bytes → Bytes → Bytes → Bool

/-- Is the key spelled the one way its scheme knows it by? -/
def KeyScheme.pubkeyWellformed (signatures : Signatures) (scheme : KeyScheme) (pubkey : Bytes) :
    Bool :=
  match scheme with
  | .ed25519 => pubkey.length == 32
  | .secp256k1 | .secp256r1 => pubkey.length == 33 && signatures.sec1Point scheme pubkey

/-- Does `proof` show that the holder of `pubkey` authorized `preimage` under `ns`? -/
def KeyScheme.verify (signatures : Signatures) (scheme : KeyScheme)
    (pubkey ns preimage proof : Bytes) : Bool :=
  scheme.pubkeyWellformed signatures pubkey && signatures.verifies scheme pubkey ns preimage proof

/-- A `u64`-length-prefixed byte string. -/
def pushBytes (bytes : Bytes) : Bytes := u64le bytes.length ++ bytes

namespace Identity

/-! ## Records -/

def maxAccounts : Nat := 65536
def maxAccountRecordBytes : Nat := 512 * 1024
def maxKeysPerAccount : Nat := 32
def maxNameLen : Nat := 64
def maxLabelLen : Nat := 64
def maxBioLen : Nat := 280
def maxAvatarRefLen : Nat := 512
def maxQueryLimit : Nat := 256
/-- The longest a consent may stay spendable. -/
def maxConsentTtl : Nat := 604800

/-- The namespace an add-key consent is signed under. -/
def addKeyNs : Bytes := utf8 "ducktape-identity-add-key-v1"

/-- Per-key metadata of an association. -/
structure KeyMeta where
  scheme : KeyScheme
  label : Option String
  addedAt : Nat
  deriving DecidableEq

/-- The keys of a key-held account. -/
abbrev Association := Std.ExtTreeMap Bytes KeyMeta

/-- The accounts one controller's records name. -/
abbrev ControlledSet := Std.ExtTreeSet AccountNumber

/-- The control record of a program account. -/
structure ProgramControl where
  controller : AccountNumber
  executor : ModuleId
  generation : Nat
  standing : ProgramStanding
  deriving DecidableEq

/-- How an account is controlled, as stored. -/
inductive ControlRecord
  | keys (association : Association)
  | program (control : ProgramControl)
  | revoked (controller : AccountNumber)
  deriving DecidableEq

namespace ControlRecord

/-- The control a query shows. -/
def view : ControlRecord → Control
  | .keys _ => .keys
  | .program p => .program p.controller p.executor p.generation p.standing
  | .revoked controller => .revoked controller

/-- The program fields, or why a program op does not apply. -/
def program? : ControlRecord → Except Error ProgramControl
  | .program p => .ok p
  | .keys _ => .error (.module "account is key-held, not a program")
  | .revoked _ => .error (.module "program is revoked")

/-- The association a query shows. -/
def keysView : ControlRecord → List KeyView
  | .keys association =>
    association.toList.map fun (pubkey, info) => ⟨info.scheme, pubkey, info.label, info.addedAt⟩
  | .program _ | .revoked _ => []

/-- May the account be named as a controller, or act as one? -/
def isLive : ControlRecord → Bool
  | .keys _ => true
  | .program p => p.standing == .active
  | .revoked _ => false

/-- The account this record names as controller. -/
def controller : ControlRecord → Option AccountNumber
  | .keys _ => none
  | .program p => some p.controller
  | .revoked c => some c

end ControlRecord

/-- One account; its number is the record's key. -/
structure AccountRecord where
  name : String
  control : ControlRecord
  avatar : Option String
  bio : Option String
  updatedAt : Nat
  deriving DecidableEq

/-- The association the key index led to. -/
def AccountRecord.association (record : AccountRecord) : Except Error Association :=
  match record.control with
  | .keys association => .ok association
  | .program _ | .revoked _ => .error (.module "key index points at an account that holds no keys")

/-- The store's keys, one constructor per record kind. -/
inductive Key
  | acct (number : AccountNumber)
  | keyOwner (pubkey : Bytes)
  | keyGen (pubkey : Bytes)
  | controlled (controller : AccountNumber)
  | nextNumber
  deriving DecidableEq

/-- The record under each key. -/
abbrev Value : Key → Type
  | .acct _ => AccountRecord
  | .keyOwner _ => AccountNumber
  | .keyGen _ => Nat
  | .controlled _ => ControlledSet
  | .nextNumber => AccountNumber

/-- What the module's store holds. -/
abbrev Store := Records Key Value

/-- Module code over that store. -/
abbrev Op (α : Type) := Handler Key Value α

section reads

variable (s : Store)

def account (number : AccountNumber) : Option AccountRecord := s (.acct number)

/-- An account an index or a control record points at. -/
def storedAccount (number : AccountNumber) : Except Error AccountRecord :=
  match account s number with
  | some record => .ok record
  | none => .error (.module "missing account record")

/-- The key index. -/
def ownerOfKey (key : Bytes) : Option AccountNumber := s (.keyOwner key)

/-- How often the key has been admitted anywhere. -/
def keyGen (key : Bytes) : Nat := (s (.keyGen key)).getD 0

/-- The next account number. -/
def nextNumber : Nat := (s .nextNumber).getD 1

/-- The accounts whose control record names `controller`. -/
def controlledBy (controller : AccountNumber) : ControlledSet := (s (.controlled controller)).getD ∅

/-- The loop of `controller_chain`: the accounts from `at` up its controllers, refusing a revisit. -/
def climb : Nat → List AccountNumber → AccountNumber → Except Error (List AccountNumber)
  -- unreachable from a state whose accounts are numbered below the fuel
  | 0, _, number => .error (.module
      s!"control chain revisits account {number}: the control graph is corrupt")
  | fuel + 1, seen, number =>
    if number ∈ seen then
      .error (.module s!"control chain revisits account {number}: the control graph is corrupt")
    else do
      let record ← storedAccount s number
      match record.control.controller with
      | none => .ok [number]
      | some controller => do
          let rest ← climb fuel (number :: seen) controller
          .ok (number :: rest)

/-- The accounts from `start` up its controllers to a key-held root. Only the accounts below the
next number exist, so the walk has no more steps than that. -/
def controllerChain (start : AccountNumber) : Except Error (List AccountNumber) :=
  climb s (nextNumber s) [] start

end reads

/-- Who a dispatch acts as. -/
inductive Actor
  | key (key : Bytes) (account : AccountNumber)
  | program (account : AccountNumber)

def Actor.account : Actor → AccountNumber
  | .key _ account | .program account => account

/-! ## Decisions -/

/-- The number the next account takes and the counter after it. -/
def allocateNumber (next : AccountNumber) : Except Error (AccountNumber × AccountNumber) :=
  if next > maxAccounts then .error (.module s!"account cap reached ({maxAccounts})")
  else match checkedSucc next with
    | some after => .ok (next, after)
    | none => .error (.module "account numbering is exhausted")

/-- A program's generation after one more mutation of its control record. -/
def nextGeneration (generation : Nat) : Except Error Nat :=
  match checkedSucc generation with
  | some next => .ok next
  | none =>
    .error (.module "program generation is exhausted; the control record cannot change")

/-- A key's admission counter after one more admission. -/
def nextKeyGeneration (generation : Nat) : Except Error Nat :=
  match checkedSucc generation with
  | some next => .ok next
  | none => .error (.module "key admission counter is exhausted")

/-- The window of one page: the first number read and how many at most. -/
def pageWindow (first limit : Nat) : AccountNumber × Nat := (max first 1, min limit maxQueryLimit)

/-- Trim an account name. -/
def cleanName (name : String) : Except Error String :=
  let trimmed := trim name
  if trimmed.isEmpty then .error (.module "account name is empty")
  else if trimmed.utf8ByteSize > maxNameLen then
    .error (.module s!"account name exceeds the {maxNameLen}-byte limit")
  else .ok trimmed

/-- Trim an optional profile field; an empty one is cleared. -/
def cleanField (value : Option String) (max : Nat) (what : String) :
    Except Error (Option String) :=
  match value with
  | none => .ok none
  | some raw =>
    let trimmed := trim raw
    if trimmed.isEmpty then .ok none
    else if trimmed.utf8ByteSize > max then .error (.module s!"{what} exceeds the {max}-byte limit")
    else .ok (some trimmed)

/-- Trim a key label. -/
def cleanLabel (label : Option String) : Except Error (Option String) :=
  cleanField label maxLabelLen "key label"

/-- The authenticated submitter: a non-empty external origin. -/
def submitterKey (bytes : Bytes) : Except Error Bytes :=
  if bytes.isEmpty then .error (.module "external origin must carry a non-empty submitter id")
  else .ok bytes

/-- The refusal of a key op that a program account submits. -/
def holdsNoKey : String := "key operations are for member keys; a program account holds no key"

/-- The submitter key of a key op. -/
def originKey (env : Env) : Except Error Bytes :=
  match env.origin with
  | .external bytes => submitterKey bytes
  | .program _ => .error (.module holdsNoKey)
  | .module _ | .system =>
    .error (.module "key operations are origin-gated to external submitters")

/-- The module behind a module-origin op. -/
def actingModule (env : Env) : Except Error ModuleId :=
  match env.origin with
  | .module id => .ok id
  | .external _ | .program _ | .system => .error (.module
      "program provisioning and standing are module-origin only (the emitting module is the executor)")

/-- The origin resolved against the store: who acts, and that account's record. -/
def acting (s : Store) (env : Env) : Except Error (Actor × AccountRecord) :=
  match env.origin with
  | .external bytes => do
      let key ← submitterKey bytes
      match ownerOfKey s key with
      | none => .error (.module "origin key belongs to no account")
      | some number => do
          let record ← storedAccount s number
          .ok (.key key number, record)
  | .program number =>
    match account s number with
    | none => .error (.module s!"program origin names account {number}, which does not exist")
    | some record =>
      match record.control with
      | .program p =>
        if p.standing = .active then .ok (.program number, record)
        else .error (.module
          s!"program origin names account {number}, which is not an active program")
      | .keys _ | .revoked _ => .error (.module
          s!"program origin names account {number}, which is not an active program")
  | .module _ | .system => .error (.module
      "account operations act as a key's account or a program account; a module or the system holds none")

/-- The record after its executor set the standing; the generation advances in any case. -/
def decideStanding (record : AccountRecord) (executor : ModuleId) (standing : ProgramStanding)
    (now : Nat) : Except Error AccountRecord := do
  let program ← record.control.program?
  if program.executor ≠ executor then
    .error (.module "only its executor sets a program's standing")
  else do
    let generation ← nextGeneration program.generation
    .ok { record with
      control := .program { program with generation := generation, standing := standing }
      updatedAt := now }

/-- The record after its controller revoked it. -/
def decideRevoke (record : AccountRecord) (actor : AccountNumber) (now : Nat) :
    Except Error AccountRecord := do
  let program ← record.control.program?
  if program.controller ≠ actor then .error (.module "only its controller revokes a program")
  else .ok { record with control := .revoked program.controller, updatedAt := now }

/-- Everything a control transfer reads. -/
structure TransferLoaded where
  record : AccountRecord
  receiverRecord : AccountRecord
  receiverChain : List AccountNumber
  giverSet : ControlledSet
  receiverSet : ControlledSet

/-- One op's complete write set. -/
abbrev WritePlan := List (Sigma Value)

end Identity

/-- The module's wiring: its id, the network it binds consents to, and the third-party codecs and
signature schemes. -/
structure Identity where
  id : ModuleId
  chainId : String
  wire : Wire
  signatures : Signatures
  /-- The stored bytes of an account record. -/
  accountBytes : Identity.AccountRecord → Bytes
  /-- The stored bytes of a controlled set. -/
  setBytes : Identity.ControlledSet → Bytes

namespace Identity

variable (I : Identity)

/-- What an add-key consent signs: this key at this generation, into that account, until that
time. -/
def addKeyPreimage (scheme : KeyScheme) (newKey : Bytes) (generation : Nat)
    (account : AccountNumber) (expiresAt : Nat) : Bytes :=
  pushBytes (utf8 I.chainId) ++ [scheme.tag] ++ pushBytes newKey ++ u64le generation ++
    u64le account ++ u64le expiresAt

/-- The record as the store takes it, or the reason it cannot. -/
def encodeAccount (record : AccountRecord) : Except Error AccountRecord :=
  let len := (I.accountBytes record).length
  if len > maxAccountRecordBytes then
    .error (.module s!"account record too large: {len} > {maxAccountRecordBytes} bytes")
  else .ok record

/-- A controlled set as the store takes it, or the reason it cannot. -/
def encodeSet (set : ControlledSet) : Except Error ControlledSet :=
  let len := (I.setBytes set).length
  if len > maxStoreValueBytes then .error (.module
    s!"a record of {len} bytes exceeds the store's value bound of {maxStoreValueBytes}")
  else .ok set

/-- The founding writes of a new program account, and its number. -/
def decideProgramFounding (name : String) (controller : AccountNumber) (executor : ModuleId)
    (next : AccountNumber) (controlled : ControlledSet) (now : Nat) :
    Except Error (WritePlan × AccountNumber) := do
  let (number, after) ← allocateNumber next
  let record ← I.encodeAccount
    ⟨name, .program ⟨controller, executor, 0, .active⟩, none, none, now⟩
  let set ← I.encodeSet (controlled.insert number)
  .ok ([⟨.acct number, record⟩, ⟨.controlled controller, set⟩, ⟨.nextNumber, after⟩], number)

/-- A control transfer: who may, where it may go, the generation after it, and the two sets it moves
between. -/
def decideTransfer (loaded : TransferLoaded) (actor number receiver : AccountNumber) (now : Nat) :
    Except Error WritePlan := do
  let program ← loaded.record.control.program?
  if program.controller ≠ actor then
    .error (.module "only its controller transfers control of a program")
  else if receiver = number then .error (.module "an account cannot control itself")
  else if receiver = program.controller then
    .error (.module s!"account {number} is already controlled by {receiver}")
  else if ¬ loaded.receiverRecord.control.isLive then
    .error (.module s!"account {receiver} cannot control: it is not key-held or an active program")
  else if number ∈ loaded.receiverChain then
    .error (.module s!"account {receiver} is controlled by {number}: control would cycle")
  else do
    let generation ← nextGeneration program.generation
    let record ← I.encodeAccount { loaded.record with
      control := .program { program with generation := generation, controller := receiver }
      updatedAt := now }
    let giverSet ← I.encodeSet (loaded.giverSet.erase number)
    let receiverSet ← I.encodeSet (loaded.receiverSet.insert number)
    .ok [⟨.acct number, record⟩, ⟨.controlled program.controller, giverSet⟩,
      ⟨.controlled receiver, receiverSet⟩]

/-! ## Operations -/

/-- Stage an updated account record under the byte cap. -/
def storeAccount (number : AccountNumber) (record : AccountRecord) : Op Unit := do
  let record ← ofExcept (I.encodeAccount record)
  stage (.acct number) record

/-- Stage a decided plan. -/
def stagePlan : WritePlan → Op Unit
  | [] => pure ()
  | ⟨key, value⟩ :: plan => do
      stage key value
      stagePlan plan

/-- Found a key-held account for the origin key. -/
def create (env : Env) (name : String) (scheme : KeyScheme) : Op Unit := do
  let origin ← ofExcept (originKey env)
  refuseIf (¬ scheme.pubkeyWellformed I.signatures origin)
    "founding key is malformed for its scheme"
  let s ← view
  refuseIf (ownerOfKey s origin).isSome "key already belongs to an account"
  let name ← ofExcept (cleanName name)
  let (number, after) ← ofExcept (allocateNumber (nextNumber s))
  let keys : Association := (∅ : Association).insert origin ⟨scheme, none, env.consensusTime⟩
  I.storeAccount number ⟨name, .keys keys, none, none, env.consensusTime⟩
  stage (.keyOwner origin) number
  stage .nextNumber after
  setAssigned (I.wire.identityAssigned.encode (.founded number))

/-- Admit the origin key into the authorizer's account. -/
def addKey (env : Env) (scheme : KeyScheme) (label : Option String) (authorizer : Authorizer) :
    Op Unit := do
  let origin ← ofExcept (originKey env)
  refuseIf (¬ scheme.pubkeyWellformed I.signatures origin) "joining key is malformed for its scheme"
  let s ← view
  refuseIf (ownerOfKey s origin).isSome "key already belongs to an account"
  let number ← require (ownerOfKey s authorizer.key) "authorizer belongs to no account"
  let named := authorizer.account
  refuseIf (number ≠ named) s!"consent names account {named}, its authorizer is on account {number}"
  let now := env.consensusTime
  let expiry := authorizer.expiresAt
  refuseIf (now > expiry) s!"consent expired at {expiry} (now {now})"
  refuseIf (expiry - now > maxConsentTtl) s!"consent outlives the {maxConsentTtl}-block ceiling"
  let record ← ofExcept (storedAccount s number)
  let keys ← ofExcept record.association
  refuseIf (keys.size ≥ maxKeysPerAccount) s!"account key cap reached ({maxKeysPerAccount})"
  let authorizing ← require keys[authorizer.key]?
    "key index disagrees with its account record"
  let generation := keyGen s origin
  refuseIf (¬ authorizing.scheme.verify I.signatures authorizer.key addKeyNs
      (I.addKeyPreimage scheme origin generation named expiry) authorizer.proof)
    "authorizer consent does not verify"
  let label ← ofExcept (cleanLabel label)
  let spent ← ofExcept (nextKeyGeneration generation)
  I.storeAccount number { record with
    control := .keys (keys.insert origin ⟨scheme, label, now⟩)
    updatedAt := now }
  stage (.keyOwner origin) number
  stage (.keyGen origin) spent

/-- Drop a key from the origin's account: itself, or one admitted no earlier than the origin was,
never the last one. -/
def removeKey (env : Env) (key : Bytes) : Op Unit := do
  let s ← view
  let (actor, record) ← ofExcept (acting s env)
  match actor with
  | .program _ => fail (.module holdsNoKey)
  | .key origin number => do
      let keys ← ofExcept record.association
      let target ← require keys[key]? "target key is not a member of this account"
      refuseIf (keys.size = 1) "cannot remove the last key of an account"
      -- the source expects the origin to be a member here
      let member ← require keys[origin]? "the origin is a member of its own account"
      refuseIf (key ≠ origin ∧ target.addedAt < member.addedAt)
        "cannot remove a key admitted before your own"
      I.storeAccount number { record with
        control := .keys (keys.erase key)
        updatedAt := env.consensusTime }
      delete (.keyOwner key)

/-- Rename the acting account. -/
def setName (env : Env) (name : String) : Op Unit := do
  let s ← view
  let (actor, record) ← ofExcept (acting s env)
  let name ← ofExcept (cleanName name)
  I.storeAccount actor.account { record with name := name, updatedAt := env.consensusTime }

/-- Set the avatar reference and the bio of the acting account. -/
def setProfile (env : Env) (avatar bio : Option String) : Op Unit := do
  let s ← view
  let (actor, record) ← ofExcept (acting s env)
  let avatar ← ofExcept (cleanField avatar maxAvatarRefLen "avatar reference")
  let bio ← ofExcept (cleanField bio maxBioLen "bio")
  I.storeAccount actor.account
    { record with avatar := avatar, bio := bio, updatedAt := env.consensusTime }

/-- Found a program account executed by the emitting module for a live controller. -/
def createProgram (env : Env) (name : String) (controller : AccountNumber) (request : Nat) :
    Op Unit := do
  let executor ← ofExcept (actingModule env)
  let name ← ofExcept (cleanName name)
  let s ← view
  let record ← require (account s controller) s!"controller {controller} is not an account"
  refuseIf (¬ record.control.isLive)
    s!"controller {controller} cannot control: it is not key-held or an active program"
  let (plan, number) ← ofExcept (I.decideProgramFounding name controller executor
    (nextNumber s) (controlledBy s controller) env.consensusTime)
  stagePlan plan
  emitMsg ⟨executor, I.wire.identityEvent.encode (.programCreated request number controller)⟩
  setAssigned (I.wire.identityAssigned.encode (.founded number))

/-- The executor sets a program's standing. -/
def setProgramStanding (env : Env) (number : AccountNumber) (standing : ProgramStanding) :
    Op Unit := do
  let executor ← ofExcept (actingModule env)
  let s ← view
  let record ← require (account s number) s!"account {number} does not exist"
  let changed ← ofExcept (decideStanding record executor standing env.consensusTime)
  I.storeAccount number changed

/-- The controller hands a program to another live account. -/
def transferControl (env : Env) (number receiver : AccountNumber) : Op Unit := do
  let s ← view
  let (actor, _) ← ofExcept (acting s env)
  let record ← require (account s number) s!"account {number} does not exist"
  let program ← ofExcept record.control.program?
  let receiverRecord ← require (account s receiver) s!"account {receiver} does not exist"
  let receiverChain ← ofExcept (controllerChain s receiver)
  let plan ← ofExcept (I.decideTransfer
    ⟨record, receiverRecord, receiverChain, controlledBy s program.controller,
      controlledBy s receiver⟩
    actor.account number receiver env.consensusTime)
  stagePlan plan

/-- The controller freezes a program for good. -/
def revokeProgram (env : Env) (number : AccountNumber) : Op Unit := do
  let s ← view
  let (actor, _) ← ofExcept (acting s env)
  let record ← require (account s number) s!"account {number} does not exist"
  let revoked ← ofExcept (decideRevoke record actor.account env.consensusTime)
  I.storeAccount number revoked

/-- One decoded operation. -/
def handle (env : Env) : IdentityMsg → Op Unit
  | .create name scheme => I.create env name scheme
  | .addKey scheme label authorizer => I.addKey env scheme label authorizer
  | .removeKey key => I.removeKey env key
  | .setName name => I.setName env name
  | .setProfile avatar bio => I.setProfile env avatar bio
  | .createProgram name controller request => I.createProgram env name controller request
  | .setProgramStanding number standing => I.setProgramStanding env number standing
  | .transferControl number receiver => I.transferControl env number receiver
  | .revokeProgram number => I.revokeProgram env number

/-! ## Queries -/

def accountView (number : AccountNumber) (record : AccountRecord) : AccountView :=
  ⟨number, record.name, record.control.view, record.control.keysView, record.avatar, record.bio,
    record.updatedAt⟩

/-- The views of numbers that a numbering or a set names. -/
def views (s : Store) (numbers : List AccountNumber) : Except Error (List AccountView) :=
  numbers.mapM fun number => do
    let record ← storedAccount s number
    .ok (accountView number record)

/-- Resolve one reference to an account number. -/
def resolveReference (s : Store) : AccountRef → Except Error (Option AccountNumber)
  | .account number => .ok ((account s number).map fun _ => number)
  | .key key =>
    match ownerOfKey s key with
    | none => .ok none
    | some number => do
        let _ ← storedAccount s number
        .ok (some number)

def resolveReferences (s : Store) (references : List AccountRef) :
    Except Error (List (Option AccountNumber)) :=
  if references.length > maxQueryLimit then
    .error (.module s!"identity: reference count exceeds query limit ({maxQueryLimit})")
  else references.mapM (resolveReference s)

/-- The read projection over the staged-over-committed view. -/
def answer (s : Store) : IdentityQuery → Except Error IdentityReply
  | .all first limit =>
    let (first, take) := pageWindow first limit
    return .accounts (← views s ((List.range' first (nextNumber s - first)).take take))
  | .get number => return .account ((account s number).map (accountView number))
  | .ofKey key =>
    match ownerOfKey s key with
    | none => return .account none
    | some number => return .account (some (accountView number (← storedAccount s number)))
  | .resolve references => return .resolved (← resolveReferences s references)
  | .keyGen key => return .gen (keyGen s key)
  | .controlled controller first limit =>
    let (first, take) := pageWindow first limit
    return .accounts (← views s (((controlledBy s controller).toList.filter (first ≤ ·)).take take))

end Identity

end Ducktape
