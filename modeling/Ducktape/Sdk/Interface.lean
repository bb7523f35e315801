import Ducktape.Sdk.Types

/-! # Wire surfaces of the system modules

The message, query and reply types of the modules the host itself talks to: the acl table, the
validator set, identity, dispatch and the code registry. Each crosses the module boundary through
one `Codec`, the serde-json encode/decode pair of the source; `Wire` bundles them. -/

namespace Ducktape

/-! ## Access control -/

/-- The standing a target module requires of a submitter. -/
inductive Standing
  | validator
  | node
  | user
  | open
  deriving DecidableEq, Inhabited

/-- The standing's name in a refusal. -/
def Standing.asStr : Standing → String
  | .validator => "validator"
  | .node => "node"
  | .user => "user"
  | .open => "open"

inductive AclMsg
  | setPolicy (target : String) (standing : Option Standing)
  deriving DecidableEq

inductive AclQuery
  | policy
  | policyFor (target : String)
  deriving DecidableEq

inductive AclReply
  | policy (table : List (String × Standing))
  | policyFor (standing : Option Standing)
  deriving DecidableEq

/-! ## Validator set -/

inductive ValsetQuery
  | validators
  | residents
  | meshWindow
  deriving DecidableEq

/-- One membership generation. -/
structure GenerationSet where
  generation : Nat
  validators : List Bytes
  residents : List Bytes
  deriving DecidableEq

inductive ValsetReply
  | validators (keys : List Bytes)
  | residents (keys : List Bytes)
  | meshWindow (window : List GenerationSet)
  deriving DecidableEq

/-! ## Identity -/

inductive KeyScheme
  | ed25519
  | secp256k1
  | secp256r1
  deriving DecidableEq, Inhabited

/-- The tag a frame or a consent declares its scheme by. -/
def KeyScheme.tag : KeyScheme → UInt8
  | .ed25519 => 0
  | .secp256k1 => 1
  | .secp256r1 => 2

/-- Whether a program account's calls may run. -/
inductive ProgramStanding
  | active
  | suspended
  deriving DecidableEq, Inhabited

/-- How an account is controlled, as a query shows it. -/
inductive Control
  /-- Key-held. -/
  | keys
  /-- A program account: its controller, executing module, generation and standing. -/
  | program (controller : AccountNumber) (executor : ModuleId) (generation : Nat)
      (standing : ProgramStanding)
  /-- A former program, frozen for good. -/
  | revoked (controller : AccountNumber)
  deriving DecidableEq, Inhabited

structure KeyView where
  scheme : KeyScheme
  pubkey : Bytes
  label : Option String
  addedAt : Nat
  deriving DecidableEq

structure AccountView where
  number : AccountNumber
  name : String
  control : Control
  keys : List KeyView
  avatar : Option String
  bio : Option String
  updatedAt : Nat
  deriving DecidableEq

/-- A member key's consent to admit another key into its account. -/
structure Authorizer where
  key : Bytes
  account : AccountNumber
  expiresAt : Nat
  proof : Bytes
  deriving DecidableEq

inductive IdentityMsg
  | create (name : String) (scheme : KeyScheme)
  | addKey (scheme : KeyScheme) (label : Option String) (authorizer : Authorizer)
  | removeKey (key : Bytes)
  | setName (name : String)
  | setProfile (avatar bio : Option String)
  | createProgram (name : String) (controller : AccountNumber) (request : Nat)
  | setProgramStanding (account : AccountNumber) (standing : ProgramStanding)
  | transferControl (account receiver : AccountNumber)
  | revokeProgram (account : AccountNumber)
  deriving DecidableEq

inductive AccountRef
  | account (number : AccountNumber)
  | key (key : Bytes)
  deriving DecidableEq

inductive IdentityQuery
  | all (first limit : Nat)
  | get (number : AccountNumber)
  | ofKey (key : Bytes)
  | resolve (references : List AccountRef)
  | keyGen (key : Bytes)
  | controlled (controller : AccountNumber) (first limit : Nat)
  deriving DecidableEq

inductive IdentityReply
  | accounts (views : List AccountView)
  | account (view : Option AccountView)
  | resolved (numbers : List (Option AccountNumber))
  | gen (generation : Nat)
  deriving DecidableEq

inductive IdentityEvent
  | programCreated (request : Nat) (account controller : AccountNumber)
  deriving DecidableEq

inductive IdentityAssigned
  | founded (account : AccountNumber)
  deriving DecidableEq

/-! ## Dispatch -/

/-- Who triggered a saga or owns a recipe. -/
inductive SagaOrigin
  | external (key : Bytes)
  | module (id : ModuleId)
  | system
  deriving DecidableEq, Inhabited

inductive Routing
  | rendezvous
  | pinned (key : Bytes)
  deriving DecidableEq, Inhabited

inductive OutputContract
  | text
  | json
  deriving DecidableEq, Inhabited

inductive AdmissionPolicy
  | queue
  | failFast
  deriving DecidableEq, Inhabited

structure Recipe where
  recipeId : String
  owner : SagaOrigin
  description : String
  capability : String
  routing : Routing
  outputContract : OutputContract
  maxAttempts : Nat
  deadlineViews : Option Nat
  leaseViews : Option Nat
  createdAt : Nat
  updatedAt : Nat
  deriving DecidableEq

inductive DispatchStatus
  | awaitingResult (sagaId : String)
  | awaitingDelivery
  | delivered (delivery : DeliveryOutcome)
  deriving DecidableEq

structure DispatchView where
  dispatchId : String
  recipeId : String
  receiver : String
  cause : Cause
  status : DispatchStatus
  outcome : Option (Except String Bytes)
  createdAt : Nat
  updatedAt : Nat

/-- Why the host refused to run a call. -/
inductive Refusal
  | notAProgram
  | revoked
  | suspended
  | staleGeneration
  | wrongExecutor
  deriving DecidableEq, Inhabited

/-- What an unrepresentable call came to before its completion could not be recorded. -/
inductive Attempt
  | applied
  | rejected
  | refused
  deriving DecidableEq, Inhabited

/-- What a call came to. -/
inductive CallOutcome
  | applied (output assigned : Bytes)
  | rejected (reason : String)
  | refused (refusal : Refusal)
  | unrepresentable (attempted : Attempt)
  deriving DecidableEq, Inhabited

/-- A call outcome with the output replaced by its digest. -/
inductive CallOutcomeSummary
  | applied (outputDigest assigned : Bytes)
  | rejected (reason : String)
  | refused (refusal : Refusal)
  | unrepresentable (attempted : Attempt)
  deriving DecidableEq, Inhabited

/-- A queued call as the host reads it from the committed call queue. -/
structure PendingCall where
  enqueued : Nat
  id : CallId
  account : AccountNumber
  generation : Nat
  target : ModuleId
  payload : Bytes
  cause : Cause
  deriving DecidableEq

inductive CallStatus
  | queued
  | completed (outcome : CallOutcomeSummary)
  | delivered (outcome : CallOutcomeSummary) (delivery : DeliveryOutcome)
  deriving DecidableEq

structure CallView where
  enqueued : Nat
  id : CallId
  account : AccountNumber
  generation : Nat
  target : ModuleId
  payloadDigest : Bytes
  cause : Cause
  status : CallStatus
  deriving DecidableEq

/-- The payload of one mailbox item: a saga result, or a call's completion. -/
inductive Delivery
  | result (dispatchId recipeId : String) (outcome : Except String Bytes)
  | callCompleted (id : CallId) (account : AccountNumber) (outcome : CallOutcome)

inductive DispatchMsg
  | registerRecipe (recipeId description capability : String) (routing : Routing)
      (outputContract : OutputContract) (maxAttempts : Nat) (deadlineViews leaseViews : Option Nat)
  | updateRecipe (recipeId : String) (description capability : Option String)
      (routing : Option Routing) (outputContract : Option OutputContract)
      (maxAttempts : Option Nat)
  | removeRecipe (recipeId : String)
  | dispatch (dispatchId recipeId : String) (payload : Bytes) (demands : List (String × Nat))
      (admission : AdmissionPolicy)
  | cancelDispatch (dispatchId : String)
  | reassignDispatch (dispatchId : String) (attempt : Nat)
  | call (invocation : String) (step : Nat) (account : AccountNumber) (target : ModuleId)
      (payload : Bytes)
  | completeCall (enqueued : Nat) (id : CallId) (outcome : CallOutcome)
  | nudge
  deriving DecidableEq

inductive DispatchQuery
  | recipe (recipeId : String)
  | dispatch (receiver dispatchId : String)
  | pendingDeliveries
  | pendingCalls
  | call (id : CallId)
  deriving DecidableEq

inductive DispatchReply
  | recipe (recipe : Option Recipe)
  | dispatch (view : Option DispatchView)
  | pendingDeliveries (count : Nat)
  | pendingCalls (calls : List PendingCall)
  | call (view : Option CallView)

/-! ## Code registry -/

/-- A scheduled code swap of one module. -/
structure ScheduledSwap where
  name : String
  activationHeight : Nat
  codeHash : Bytes
  readiness : List Bytes
  readyAt : Option Nat
  deriving DecidableEq

/-- The arm predicate: readiness latched strictly before `height`, activation floor reached. -/
def ScheduledSwap.armedAt (swap : ScheduledSwap) (height : Nat) : Bool :=
  swap.readyAt.any (· < height) && swap.activationHeight ≤ height

/-- One activation: `codeHash` became the module's running code for block `height`. -/
structure Activation where
  height : Nat
  codeHash : Bytes
  deriving DecidableEq

/-- The registry's per-module projection. -/
structure ModuleCode where
  moduleId : String
  activeCodeHash : Bytes
  pending : Option ScheduledSwap
  history : List Activation
  deriving DecidableEq

/-- The registry's replies; the host reads `moduleStatus` only. -/
inductive ModulesReply
  | moduleStatus (modules : List ModuleCode)
  | armedAt (swaps : List (String × Bytes))
  | lanes (names : List String)
  deriving DecidableEq

/-! ## Codecs -/

/-- A wire type's codec: its bytes, the decoder with its parse error, and its debug rendering. -/
structure Codec (α : Type) where
  encode : α → Bytes
  decode : Bytes → Except String α
  debug : α → String

/-- The codec reads back what it wrote. -/
def Codec.RoundTrips {α : Type} (codec : Codec α) : Prop :=
  ∀ a, codec.decode (codec.encode a) = .ok a

/-- Every codec the host and the system modules use. -/
structure Wire where
  ack : Codec Ack
  aclMsg : Codec AclMsg
  aclQuery : Codec AclQuery
  aclReply : Codec AclReply
  valsetQuery : Codec ValsetQuery
  valsetReply : Codec ValsetReply
  identityQuery : Codec IdentityQuery
  identityReply : Codec IdentityReply
  identityEvent : Codec IdentityEvent
  identityAssigned : Codec IdentityAssigned
  dispatchMsg : Codec DispatchMsg
  dispatchQuery : Codec DispatchQuery
  dispatchReply : Codec DispatchReply
  delivery : Codec Delivery
  /-- The encoded `Advance` op of the code registry. -/
  modulesAdvance : Bytes
  /-- The encoded `ModuleStatus` query of the code registry. -/
  moduleStatus : Bytes
  modulesReply : Codec ModulesReply

end Ducktape
