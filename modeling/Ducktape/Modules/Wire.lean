import Ducktape.Sdk.Interface

/-! # Wire surfaces of governance and what it governs

The messages of governance, and those it emits at the validator set and the code registry. The codecs of
the latter are bundled in `GovWire`, beside the `Wire` the host itself uses. -/

namespace Ducktape

/-- `Debug` of an origin, as refusals print it. -/
def Origin.debug : Origin → String
  | .external key =>
    let bytes := ", ".intercalate (key.map fun b => toString b.toNat)
    s!"External([{bytes}])"
  | .module id => s!"Module(\"{id}\")"
  | .program account => s!"Program({account})"
  | .system => "System"

/-! ## Validator set -/

inductive ValsetMsg
  | join (key : Bytes)
  | leave (key : Bytes)
  | grant (key : Bytes)
  | revoke (key : Bytes)
  deriving DecidableEq

/-- `valset::MAX_MEMBERS`. -/
def maxMembers : Nat := 1024

/-! ## Code registry -/

/-- What a registered component is. -/
inductive Kind
  | module
  | view
  deriving DecidableEq

/-- How a lane's streams share the link budget. -/
inductive LanePacing
  | shared
  | local (ceiling burst : Nat)
  deriving DecidableEq

/-- The stream half of a lane. -/
structure LaneStream where
  pacing : LanePacing
  acceptBacklog : Nat
  deriving DecidableEq

/-- A data-plane lane a component declares. -/
structure LaneDecl where
  id : UInt8
  name : String
  stream : Option LaneStream
  deriving DecidableEq

inductive ModulesMsg
  | registerModule (moduleId : String) (kind : Kind) (codeHash : Bytes) (lanes : List LaneDecl)
  | scheduleSwap (name moduleId : String) (activationHeight : Nat) (codeHash : Bytes)
  | scheduleRegister (name moduleId : String) (kind : Kind) (activationHeight : Nat)
      (codeHash : Bytes) (lanes : List LaneDecl)
  | cancelSwap (name moduleId : String)
  | swapReady (name moduleId : String) (codeHash : Bytes)
  | advance
  deriving DecidableEq

/-- `modules::CODE_HASH_LEN`. -/
def codeHashLen : Nat := 32

/-! ## Governance -/

structure ShareAllocation where
  accountId : AccountNumber
  shares : Nat
  deriving DecidableEq

/-- What a proposal does when it passes. -/
inductive GovAction
  | addValidator (key : Bytes)
  | removeValidator (key : Bytes)
  | signal (text : String)
  | addResident (key : Bytes)
  | removeResident (key : Bytes)
  | adoptShares (allocations : List ShareAllocation)
  | setShares (accountId : AccountNumber) (shares : Nat)
  | setShareMode (enabled : Bool)
  | updateModule (name moduleId : String) (activationLead : Nat) (codeHash : Bytes)
  | registerModule (name moduleId : String) (kind : Kind) (activationLead : Nat) (codeHash : Bytes)
      (lanes : List LaneDecl)
  | cancelModuleUpdate (name moduleId : String)
  | setAclPolicy (target : String) (standing : Option Standing)
  deriving DecidableEq

/-- Whose ballots an electorate counts. -/
inductive VoterKind
  | validatorNode
  | account
  deriving DecidableEq

/-- When a proposal passes. -/
inductive VotingRule
  | threshold (requiredYes : Nat)
  | participatingMajority (quorum : Nat)
  deriving DecidableEq

inductive ProposalStatus
  | open
  | passed
  | rejected
  deriving DecidableEq

inductive GovMsg
  | propose (proposalId : String) (action : GovAction) (votingPeriod : Nat)
  | vote (proposalId : String) (approve : Bool)
  | execute (proposalId : String)
  | redeem (issuer nonce tokenSig joiner proof : Bytes) (expiresUnixSecs : Nat)
  deriving DecidableEq

/-- The codecs of the messages governance emits. -/
structure GovWire where
  valsetMsg : Codec ValsetMsg
  modulesMsg : Codec ModulesMsg

end Ducktape
