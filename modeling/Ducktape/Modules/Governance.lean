import Ducktape.Modules.Acl

/-! # Governance

Members propose, the electorate frozen at the proposal votes until a deadline, and anyone executes
once the outcome is decidable. A passing action is performed by emitting the op that does it, or by
writing governance's own share records. A proposal's record is kept for good; the roster lists the
open ones.

Sibling reads go through `Handler.query`; the record codec and the invite signatures are third-party
code and enter as fields of `Governance`. -/

namespace Ducktape

open Lib Handler Std

namespace Governance

/-! ## Records -/

def maxVotingPeriod : Nat := 1000000000
/-- How long past its deadline a proposal stays enactable. -/
def executionGrace : Nat := 100000
/-- `modules::MIN_SWAP_LEAD + 1`. -/
def minActivationLead : Nat := 4
def maxActivationLead : Nat := 1000000000
def maxSafeShares : Nat := 9007199254740991
def maxShareAccounts : Nat := 256
def maxProposalIdBytes : Nat := 256
def maxProposals : Nat := 1024
def maxOpenProposalsPerSubmitter : Nat := 8
def maxRosterRecordBytes : Nat := 512 * 1024
def maxProposalRecordBytes : Nat := 512 * 1024
def inviteNonceLen : Nat := 16

def inviteGrantNamespace : Bytes := utf8 "ducktape-invite-grant-v1"
def inviteJoinNamespace : Bytes := utf8 "ducktape-invite-join-v1"

/-- Who decides a proposal, with what power, and by which rule. -/
structure Electorate where
  voterKind : VoterKind
  powers : ExtTreeMap Bytes Nat
  rule : VotingRule
  deriving DecidableEq

/-- One proposal, with the electorate frozen when it was made. -/
structure Proposal where
  action : GovAction
  proposer : Bytes
  createdAt : Nat
  deadline : Nat
  status : ProposalStatus
  votes : ExtTreeMap Bytes Bool
  electorate : Electorate
  deriving DecidableEq

/-- One settled invite redemption; the nonce is its key. -/
structure Redemption where
  joiner : Bytes
  issuer : Bytes
  height : Nat
  deriving DecidableEq

/-- The share registry: account number to shares. -/
abbrev Shares := ExtTreeMap AccountNumber Nat

/-- The store's keys, one constructor per record kind. -/
inductive Key
  | prop (proposalId : String)
  | red (nonce : Bytes)
  | proposals
  | shares
  | mode
  deriving DecidableEq

/-- The record under each key. -/
abbrev Value : Key → Type
  | .prop _ => Proposal
  | .red _ => Redemption
  | .proposals => List String
  | .shares => Shares
  | .mode => Bool

abbrev Store := Records Key Value

abbrev Op (α : Type) := Handler Key Value α

section reads

variable (s : Store)

def proposal (proposalId : String) : Option Proposal := s (.prop proposalId)

/-- The ids of the open proposals, sorted. -/
def roster : List String := (s .proposals).getD []

def shares : Option Shares := s .shares

/-- Do account shares vote, rather than validator nodes? -/
def shareMode : Bool := (s .mode).getD false

end reads

/-! ## Decisions -/

/-- The last moment of the execution window, saturating. -/
def Proposal.executionDeadline (p : Proposal) : Nat := min (p.deadline + executionGrace) u64Max

/-- The total power, which must be positive and exact in the operator client. -/
def totalPower (powers : List Nat) : Except Error Nat :=
  match powers.foldl (fun sum power => sum.bind fun sum =>
      if sum + power ≤ u64Max then some (sum + power) else none) (some 0) with
  | none => .error (.module "total governance shares overflow u64")
  | some total =>
    if total = 0 ∨ total > maxSafeShares then
      .error (.module s!"total governance shares must be in 1..={maxSafeShares}")
    else .ok total

/-- Would `standing` on `target` still let the electorate that decides future proposals submit to
governance? -/
def electorateCanStillSubmit (shareMode : Bool) (governanceId target : String)
    (standing : Option Standing) : Bool :=
  let governsGovernance := target == governanceId || target == Acl.wildcardTarget
  if !governsGovernance then true
  else match standing with
    | none | some .open => true
    | some .user => shareMode
    | some .node | some .validator => !shareMode

/-- The rule a proposal freezes. -/
def thresholdRule (total : Nat) (action : GovAction) (shareMode : Bool) : VotingRule :=
  if !shareMode then .threshold (total / 2 + 1)
  else match action with
    | .signal _ => .participatingMajority (total / 2 + total % 2)
    | _ => .threshold (total - total / 3)

/-- The power of the frozen principals that cast `ballot`. -/
def Proposal.power (p : Proposal) (ballot : Bool) : Nat :=
  (p.electorate.powers.toList.map fun entry =>
    if p.votes[entry.1]? = some ballot then entry.2 else 0).sum

/-- Does the rule pass, and is that decided before the deadline? -/
def decideRule (rule : VotingRule) (yes no total : Nat) : Bool × Bool :=
  match rule with
  | .threshold requiredYes => (requiredYes ≤ yes, requiredYes ≤ yes)
  | .participatingMajority quorum =>
    (quorum ≤ yes + no && no < yes, quorum ≤ yes + no && total - yes < yes)

/-- The wire principal of an account. -/
def accountPrincipal (number : AccountNumber) : Bytes := u64le number

/-- The id's place in the sorted roster. -/
def insertSorted (proposalId : String) (roster : List String) : List String :=
  roster.takeWhile (· < proposalId) ++ proposalId :: roster.dropWhile (· < proposalId)

/-- The authenticated submitter. -/
def externalOrigin (env : Env) : Except Error Bytes :=
  match env.origin with
  | .external key => .ok key
  | other =>
    let got := other.debug
    .error (.module s!"governance actions require an external submitter, got {got}")

/-- The third-party key and signature code of invites. -/
structure InviteCrypto where
  decodeKey : Bytes → Except String Bytes
  decodeSignature : Bytes → Except String Bytes
  /-- Key, namespace, message, signature. -/
  verify : Bytes → Bytes → Bytes → Bytes → Bool

end Governance

/-- The module's wiring and the third-party code it rests on. -/
structure Governance where
  id : ModuleId
  valsetId : ModuleId
  codeRegistryId : Option ModuleId
  identityId : ModuleId
  aclId : Option ModuleId
  /-- The network binding invite tokens sign over. -/
  inviteBinding : Option Bytes
  wire : Wire
  govWire : GovWire
  invites : Governance.InviteCrypto
  /-- The stored bytes of a proposal. -/
  proposalBytes : Governance.Proposal → Bytes
  /-- The stored bytes of the roster. -/
  rosterBytes : List String → Bytes

namespace Governance

variable (G : Governance)

/-! ## Sibling reads -/

/-- The current member set. -/
def members : Op (List Bytes) := do
  let reply ← query G.valsetId (G.wire.valsetQuery.encode .validators)
  match G.wire.valsetReply.decode reply with
  | .ok (.validators members) => pure members
  | .ok other =>
    let got := G.wire.valsetReply.debug other
    fail (.module s!"valset answered a Validators query with {got}")
  | .error text => fail (.module text)

/-- The current resident set. -/
def residents : Op (List Bytes) := do
  let reply ← query G.valsetId (G.wire.valsetQuery.encode .residents)
  match G.wire.valsetReply.decode reply with
  | .ok (.residents residents) => pure residents
  | .ok other =>
    let got := G.wire.valsetReply.debug other
    fail (.module s!"valset answered a Residents query with {got}")
  | .error text => fail (.module text)

/-- Is the key seated already, or in the resident tier? -/
def standsForPromotion (members : List Bytes) (key : Bytes) : Op Bool :=
  if key ∈ members then pure true
  else do
    let residents ← G.residents
    pure (decide (key ∈ residents))

def identityAccount (q : IdentityQuery) : Op (Option AccountView) := do
  let reply ← query G.identityId (G.wire.identityQuery.encode q)
  match G.wire.identityReply.decode reply with
  | .ok (.account account) => pure account
  | .ok (.accounts _) | .ok (.resolved _) | .ok (.gen _) =>
    fail (.module "unexpected identity reply")
  | .error text => fail (.module text)

/-- The account a submitter speaks for in share mode; a key of no account speaks for none. -/
def submitterAccount (submitter : Bytes) : Op AccountNumber := do
  let account ← G.identityAccount (.ofKey submitter)
  match account with
  | some view => pure view.number
  | none => fail (.module "submitter key belongs to no Identity account")

def requireAccount (number : AccountNumber) : Op Unit := do
  let account ← G.identityAccount (.get number)
  refuseIf account.isNone "share allocation names no existing Identity account"

/-! ## Writes -/

/-- Stage a proposal if its record fits `cap`. -/
def storeBounded (proposalId : String) (p : Proposal) (cap : Nat) : Op Unit := do
  let len := (G.proposalBytes p).length
  refuseIf (len > cap) s!"proposal record too large: {len} > {cap} bytes"
  stage (.prop proposalId) p

def storeProposal (proposalId : String) (p : Proposal) : Op Unit :=
  G.storeBounded proposalId p maxProposalRecordBytes

def stageRoster (ids : List String) : Op Unit := do
  let len := (G.rosterBytes ids).length
  refuseIf (len > maxRosterRecordBytes)
    s!"proposal roster record too large: {len} > {maxRosterRecordBytes} bytes"
  stage .proposals ids

/-- Settle every open roster entry past its execution window as rejected and evict it. Returns how
many of the surviving proposals are `proposer`'s, and the surviving roster. -/
def reapExpired (now : Nat) (proposer : Bytes) : List String → Op (Nat × List String)
  | [] => pure (0, [])
  | id :: rest => do
      let s ← view
      let p ← require (proposal s id) s!"missing proposal record: {id}"
      if p.status = .open ∧ now ≥ p.executionDeadline then do
        G.storeProposal id { p with status := .rejected }
        reapExpired now proposer rest
      else do
        let (count, kept) ← reapExpired now proposer rest
        pure (count + (if p.proposer = proposer then 1 else 0), id :: kept)

def reapRoster (now : Nat) : Op Unit := do
  let s ← view
  let (_, kept) ← G.reapExpired now [] (roster s)
  G.stageRoster kept

/-- Persist a settled proposal and evict its id from the roster. -/
def settle (proposalId : String) (p : Proposal) : Op Unit := do
  G.storeProposal proposalId p
  let s ← view
  if proposalId ∈ roster s then G.stageRoster ((roster s).erase proposalId) else pure ()

/-! ## Proposing -/

/-- The proposer's principal, and the electorate the proposal freezes. -/
def frozenElectorate (submitter : Bytes) (action : GovAction) : Op (Bytes × Electorate) := do
  let s ← view
  if shareMode s then do
    let held ← require (shares s) "account-share mode has no configured registry"
    let number ← G.submitterAccount submitter
    refuseIf (number ∉ held) "submitter account holds no governance shares"
    let total ← ofExcept (totalPower held.values)
    let powers := ExtTreeMap.ofList (held.toList.map fun (n, power) => (accountPrincipal n, power))
    pure (accountPrincipal number, ⟨.account, powers, thresholdRule total action true⟩)
  else do
    let members ← G.members
    refuseIf (submitter ∉ members) "submitter is not a validator-set member node"
    let powers := ExtTreeMap.ofList (members.map fun member => (member, 1))
    let total ← ofExcept (totalPower powers.values)
    pure (submitter, ⟨.validatorNode, powers, thresholdRule total action false⟩)

/-- Collect an initial allocation, one account after the other. -/
def normalizeAllocations : List ShareAllocation → Shares → Op Shares
  | [], normalized => pure normalized
  | allocation :: rest, normalized => do
      refuseIf (allocation.shares = 0) "initial share allocations must be positive"
      G.requireAccount allocation.accountId
      refuseIf (allocation.accountId ∈ normalized)
        "initial share allocation contains a duplicate account"
      normalizeAllocations rest (normalized.insert allocation.accountId allocation.shares)

/-- The registry with one account's shares set. -/
def withShares (held : Shares) (accountId : AccountNumber) (amount : Nat) : Shares :=
  if amount = 0 then held.erase accountId else held.insert accountId amount

def normalizeShareAction (action : GovAction) : Op GovAction := do
  let s ← view
  match action with
  | .adoptShares allocations => do
      refuseIf (shares s).isSome "governance shares are already configured"
      refuseIf (allocations = [] ∨ allocations.length > maxShareAccounts)
        s!"initial share allocation must contain 1..={maxShareAccounts} accounts"
      let normalized ← G.normalizeAllocations allocations ∅
      let _ ← ofExcept (totalPower normalized.values)
      pure (.adoptShares (normalized.toList.map fun (n, amount) => ⟨n, amount⟩))
  | .setShares accountId amount => do
      let current ← require (shares s) "adopt governance shares before changing them"
      refuseIf (amount > maxSafeShares) s!"account shares must be at most {maxSafeShares}"
      G.requireAccount accountId
      let held := withShares current accountId amount
      refuseIf (held.size > maxShareAccounts)
        s!"share registry supports at most {maxShareAccounts} accounts"
      let _ ← ofExcept (totalPower held.values)
      pure action
  | .setShareMode enabled => do
      refuseIf (enabled ∧ (shares s).isNone)
        "configure governance shares before enabling share mode"
      refuseIf (enabled = shareMode s) "governance is already using the requested voting mode"
      pure action
  | _ => pure action

/-- The membership key an action names. -/
def membershipKey? : GovAction → Option Bytes
  | .addValidator key | .removeValidator key | .addResident key | .removeResident key => some key
  | _ => none

/-- The name and module id of a module-update action. -/
def moduleUpdate? : GovAction → Option (String × String)
  | .updateModule name moduleId _ _ | .registerModule name moduleId _ _ _ _
  | .cancelModuleUpdate name moduleId => some (name, moduleId)
  | _ => none

/-- The activation lead and code hash of an action that schedules code. -/
def scheduled? : GovAction → Option (Nat × Bytes)
  | .updateModule _ _ lead codeHash | .registerModule _ _ _ lead codeHash _ => some (lead, codeHash)
  | _ => none

/-- The refusal of a promotion whose key the network has not met. -/
def notAResident : String :=
  "not_a_resident: a validator is promoted out of the resident tier — grant standing first and let it sync"

/-- A membership key has the shape of one. -/
def checkMembershipKey (action : GovAction) : Op Unit :=
  match membershipKey? action with
  | some key =>
    refuseIf (key.length ≠ 32) "membership key must be a 32-byte ed25519 public key"
  | none => pure ()

/-- A promotion names a key the network has already met. -/
def checkPromotion (action : GovAction) : Op Unit :=
  match action with
  | .addValidator key => do
      let members ← G.members
      let stands ← G.standsForPromotion members key
      refuseIf (¬ stands) notAResident
  | _ => pure ()

/-- A module update needs a wired registry and names what it updates. -/
def checkModuleUpdate (action : GovAction) : Op Unit :=
  match moduleUpdate? action with
  | some (name, moduleId) => do
      refuseIf G.codeRegistryId.isNone
        "no code registry wired: module updates are not available on this network"
      refuseIf (name = "") "module update name must not be empty"
      refuseIf (moduleId = "") "module_id must not be empty"
  | none => pure ()

/-- Scheduled code is named by its hash and activates within the registry's bounds. -/
def checkSchedule (action : GovAction) : Op Unit :=
  match scheduled? action with
  | some (lead, codeHash) => do
      refuseIf (codeHash.length ≠ codeHashLen)
        s!"code_hash must be {codeHashLen} bytes (sha256 of the component)"
      refuseIf (¬ (minActivationLead ≤ lead ∧ lead ≤ maxActivationLead))
        s!"activation_lead must be in {minActivationLead}..={maxActivationLead} blocks after execution"
  | none => pure ()

/-- A policy change needs a wired acl, a well-formed target, and must not lock the electorate out. -/
def checkAclPolicy (action : GovAction) : Op Unit :=
  match action with
  | .setAclPolicy target standing => do
      refuseIf G.aclId.isNone
        "no acl module wired: submit-policy changes are not available on this network"
      let cap := Acl.maxTargetLen
      refuseIf (¬ (target ≠ "" ∧ trim target = target ∧ target.utf8ByteSize ≤ cap))
        s!"acl target must be a non-empty, untrimmed module id of at most {cap} bytes"
      let s ← view
      refuseIf (¬ electorateCanStillSubmit (shareMode s) G.id target standing)
        "acl policy would lock the current electorate out of governance itself"
  | _ => pure ()

/-- The checks a proposal's action passes at the door. -/
def checkAction (action : GovAction) : Op Unit := do
  checkMembershipKey action
  G.checkPromotion action
  G.checkModuleUpdate action
  checkSchedule action
  G.checkAclPolicy action

def handlePropose (env : Env) (proposalId : String) (action : GovAction) (votingPeriod : Nat) :
    Op Unit := do
  refuseIf (proposalId = "") "proposal_id must not be empty"
  let given := proposalId.utf8ByteSize
  refuseIf (given > maxProposalIdBytes)
    s!"proposal_id exceeds {maxProposalIdBytes} bytes ({given} given)"
  refuseIf (votingPeriod = 0 ∨ votingPeriod > maxVotingPeriod)
    s!"voting_period must be in 1..={maxVotingPeriod}"
  G.checkAction action
  let s ← view
  refuseIf (proposal s proposalId).isSome s!"proposal already exists: {proposalId}"
  let ids := roster s
  let submitter ← ofExcept (externalOrigin env)
  let (proposer, electorate) ← G.frozenElectorate submitter action
  let now := env.consensusTime
  let (openByProposer, ids) ← G.reapExpired now proposer ids
  refuseIf (ids.length ≥ maxProposals) s!"proposal cap reached ({maxProposals})"
  refuseIf (openByProposer ≥ maxOpenProposalsPerSubmitter)
    s!"submitter already has {maxOpenProposalsPerSubmitter} open proposals"
  let action ← G.normalizeShareAction action
  refuseIf (now + votingPeriod > u64Max) "voting deadline overflows consensus time"
  G.storeBounded proposalId
    ⟨action, proposer, now, now + votingPeriod, .open, ∅, electorate⟩ (maxProposalRecordBytes / 2)
  G.stageRoster (insertSorted proposalId ids)

/-! ## Voting and executing -/

/-- The principal whose one ballot a submitter casts: a node key is its own, an account key speaks
for its account. -/
def voterOf (kind : VoterKind) (submitter : Bytes) : Op Bytes :=
  match kind with
  | .validatorNode => pure submitter
  | .account => do
      let number ← G.submitterAccount submitter
      pure (accountPrincipal number)

/-- A ballot of the frozen electorate; the last one of a voter counts. -/
def handleVote (env : Env) (proposalId : String) (approve : Bool) : Op Unit := do
  G.reapRoster env.consensusTime
  let s ← view
  let p ← require (proposal s proposalId) s!"no such proposal: {proposalId}"
  refuseIf (p.status ≠ .open) "proposal is settled"
  refuseIf (env.consensusTime ≥ p.deadline) "voting closed at the deadline"
  let submitter ← ofExcept (externalOrigin env)
  let voter ← G.voterOf p.electorate.voterKind submitter
  refuseIf (voter ∉ p.electorate.powers) "voter is not in the frozen electorate"
  G.storeProposal proposalId { p with votes := p.votes.insert voter approve }

/-- Emit a valset op. -/
def emitValset (msg : ValsetMsg) : Op Unit :=
  emitMsg ⟨G.valsetId, G.govWire.valsetMsg.encode msg⟩

/-- Emit a code-registry op where a registry is wired. -/
def emitModules (msg : ModulesMsg) : Op ProposalStatus :=
  match G.codeRegistryId with
  | some registry => do
      emitMsg ⟨registry, G.govWire.modulesMsg.encode msg⟩
      pure .passed
  | none => pure .rejected

/-- The height a scheduled swap activates at, saturating. -/
def activationHeight (env : Env) (lead : Nat) : Nat := min (env.height + lead) u64Max

/-- Perform a passing action, or settle it rejected where it cannot be performed any more. -/
def enact (env : Env) : GovAction → Op ProposalStatus
  | .addValidator key => do
      let members ← G.members
      let stands ← G.standsForPromotion members key
      if (key ∉ members ∧ members.length ≥ maxMembers) ∨ ¬ stands then pure .rejected
      else do
        G.emitValset (.join key)
        pure .passed
  | .removeValidator key => do
      let members ← G.members
      if ∀ m ∈ members, m = key then pure .rejected
      else do
        G.emitValset (.leave key)
        pure .passed
  | .updateModule name moduleId lead codeHash =>
    G.emitModules (.scheduleSwap name moduleId (activationHeight env lead) codeHash)
  | .registerModule name moduleId kind lead codeHash lanes =>
    G.emitModules (.scheduleRegister name moduleId kind (activationHeight env lead) codeHash lanes)
  | .cancelModuleUpdate name moduleId => G.emitModules (.cancelSwap name moduleId)
  | .addResident key => do
      let members ← G.members
      if key ∈ members then pure .rejected
      else do
        let residents ← G.residents
        if key ∉ residents ∧ residents.length ≥ maxMembers then pure .rejected
        else do
          G.emitValset (.grant key)
          pure .passed
  | .removeResident key => do
      G.emitValset (.revoke key)
      pure .passed
  | .adoptShares allocations => do
      let s ← view
      let held : Shares := .ofList (allocations.map fun a => (a.accountId, a.shares))
      if (shares s).isSome then pure .rejected
      else match totalPower held.values with
        | .error _ => pure .rejected
        | .ok _ => do
            stage .shares held
            stage .mode true
            pure .passed
  | .setShares accountId amount => do
      let s ← view
      match shares s with
      | none => pure .rejected
      | some current =>
        let held := withShares current accountId amount
        match totalPower held.values with
        | .error _ => pure .rejected
        | .ok _ =>
          if held.size > maxShareAccounts then pure .rejected
          else do
            stage .shares held
            pure .passed
  | .setShareMode enabled => do
      let s ← view
      if enabled ∧ (shares s).isNone then pure .rejected
      else do
        stage .mode enabled
        pure .passed
  | .setAclPolicy target standing =>
    match G.aclId with
    | none => pure .rejected
    | some aclId => do
        let s ← view
        -- the mode may have changed since the proposal opened
        if electorateCanStillSubmit (shareMode s) G.id target standing then do
          emitMsg ⟨aclId, G.wire.aclMsg.encode (.setPolicy target standing)⟩
          pure .passed
        else pure .rejected
  | .signal _ => pure .passed

/-- The status a tallied proposal settles with; a passing action is performed. -/
def conclude (env : Env) (action : GovAction) (passes : Bool) : Op ProposalStatus :=
  if passes then G.enact env action else pure .rejected

def handleExecute (env : Env) (proposalId : String) : Op Unit := do
  let s ← view
  let p ← require (proposal s proposalId) s!"no such proposal: {proposalId}"
  refuseIf (p.status ≠ .open) "proposal is settled"
  let now := env.consensusTime
  if now ≥ p.executionDeadline then G.settle proposalId { p with status := .rejected }
  else do
    G.reapRoster now
    let (yes, no, deadline) := (p.power true, p.power false, p.deadline)
    let total ← ofExcept (totalPower p.electorate.powers.values)
    let (passes, decidableEarly) := decideRule p.electorate.rule yes no total
    refuseIf (now < deadline ∧ ¬ decidableEarly)
      s!"not decidable yet: voting open until {deadline} (yes={yes}, no={no}, total={total})"
    let status ← G.conclude env p.action passes
    G.settle proposalId { p with status := status }

/-! ## Invites -/

/-- The signed preimage of an invite grant. -/
def grantPreimage (binding nonce : Bytes) (expires : Nat) : Bytes := binding ++ nonce ++ u64le expires

/-- A third-party decoder, with its error labelled. -/
def decoded (decode : Bytes → Except String Bytes) (what : String) (bytes : Bytes) :
    Except Error Bytes :=
  match decode bytes with
  | .ok value => .ok value
  | .error text => .error (.module s!"{what}: {text}")

/-- Redeem an invite: the mint was the admission decision. -/
def handleRedeem (env : Env) (issuer nonce tokenSig joiner proof : Bytes) (expires : Nat) :
    Op Unit := do
  let _ ← ofExcept (externalOrigin env)
  let binding ← require G.inviteBinding
    "this network is not wired for invite redemption (no binding)"
  let issuerKey ← ofExcept (decoded G.invites.decodeKey "issuer key" issuer)
  let joinerKey ← ofExcept (decoded G.invites.decodeKey "joiner key" joiner)
  refuseIf (nonce.length ≠ inviteNonceLen) s!"nonce must be {inviteNonceLen} bytes"
  let sig ← ofExcept (decoded G.invites.decodeSignature "token signature" tokenSig)
  let proofSig ← ofExcept (decoded G.invites.decodeSignature "join proof" proof)
  refuseIf (¬ G.invites.verify issuerKey inviteGrantNamespace
    (grantPreimage binding nonce expires) sig)
    "invite token signature does not verify for this network"
  refuseIf (¬ G.invites.verify joinerKey inviteJoinNamespace
    (binding ++ nonce ++ joinerKey) proofSig) "joiner proof-of-possession does not verify"
  let members ← G.members
  refuseIf (issuer ∉ members) "the inviting member is no longer part of this network"
  refuseIf (joiner ∈ members) "joiner is already a validator"
  let residents ← G.residents
  refuseIf (joiner ∈ residents) "joiner already holds resident standing"
  let s ← view
  refuseIf (s (.red nonce)).isSome "invite already redeemed"
  stage (.red nonce) ⟨joiner, issuer, env.height⟩
  G.emitValset (.grant joiner)

/-- One decoded operation. -/
def handle (env : Env) : GovMsg → Op Unit
  | .propose proposalId action votingPeriod => G.handlePropose env proposalId action votingPeriod
  | .vote proposalId approve => G.handleVote env proposalId approve
  | .execute proposalId => G.handleExecute env proposalId
  | .redeem issuer nonce tokenSig joiner proof expires =>
    G.handleRedeem env issuer nonce tokenSig joiner proof expires

end Governance

end Ducktape
