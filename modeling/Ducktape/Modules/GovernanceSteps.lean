import Ducktape.Lib.Lockstep
import Ducktape.Modules.Governance

/-! # What a governance operation can do

`Effect G ask env s msg emitted s'` lists what an accepted operation finds and what it does to the
proposals, the shares, the voting mode and the emitted messages; `handle_effect` says every accepted
call has one. `Reaped` is the settling of expired proposals that runs inside most of them, `Enacted`
the performance of a passing action. -/

namespace Ducktape.Governance

open Lib Handler Function

/-! ## Reads of a written store -/

section reads

variable (s : Store) {key : Key} (value : Value key)

@[simp] theorem proposal_put_prop (id : String) (p : Proposal) :
    proposal (put s (.prop id) p) = update (proposal s) id (some p) := by
  funext other
  by_cases same : other = id
  · subst same
    simp [proposal]
  · simp [proposal, same]

@[simp] theorem proposal_put (other : ∀ id, Key.prop id ≠ key) :
    proposal (put s key value) = proposal s :=
  funext fun id => put_of_ne s (other id) value

@[simp] theorem shares_put_shares (held : Shares) : shares (put s .shares held) = some held :=
  put_self s (show Value .shares from held)

@[simp] theorem shares_put (other : Key.shares ≠ key) : shares (put s key value) = shares s :=
  put_of_ne s other value

@[simp] theorem roster_put_proposals (ids : List String) : roster (put s .proposals ids) = ids := by
  simp [roster]

@[simp] theorem roster_put (other : Key.proposals ≠ key) : roster (put s key value) = roster s := by
  rw [roster, put_of_ne s other, roster]

@[simp] theorem shareMode_put (other : Key.mode ≠ key) :
    shareMode (put s key value) = shareMode s := by
  rw [shareMode, put_of_ne s other, shareMode]

end reads

/-! ## Reaping -/

/-- Some open proposals past their execution window are rejected; nothing else that decides a
proposal moves. -/
structure Reaped (now : Nat) (s s' : Store) : Prop where
  proposals : ∀ id, proposal s' id = proposal s id ∨
    ∃ p, proposal s id = some p ∧ p.status = .open ∧ p.executionDeadline ≤ now ∧
      proposal s' id = some { p with status := .rejected }
  shares : shares s' = shares s
  mode : shareMode s' = shareMode s

variable {p : Proposal} {id : String}

namespace Reaped

variable {now : Nat} {s m s' : Store}

theorem refl (now : Nat) (s : Store) : Reaped now s s := ⟨fun _ => .inl rfl, rfl, rfl⟩

theorem trans (first : Reaped now s m) (second : Reaped now m s') : Reaped now s s' := by
  refine ⟨fun id => ?_, second.shares.trans first.shares, second.mode.trans first.mode⟩
  rcases second.proposals id with same | ⟨p, found, isOpen, late, settled⟩
  · rw [same]
    exact first.proposals id
  rcases first.proposals id with same | ⟨q, _, _, _, rejected⟩
  · exact .inr ⟨p, same ▸ found, isOpen, late, settled⟩
  -- a proposal the first pass rejected is not open for the second
  rw [rejected, Option.some_inj] at found
  rw [← found] at isOpen
  cases isOpen

theorem none_iff (reaped : Reaped now s s') (id : String) :
    proposal s' id = none ↔ proposal s id = none := by
  rcases reaped.proposals id with same | ⟨p, found, -, -, settled⟩
  · rw [same]
  · simp [found, settled]

/-- A proposal still inside its window survives. -/
theorem survives (reaped : Reaped now s s') (found : proposal s id = some p)
    (inside : now < p.executionDeadline) :
    proposal s' id = some p := by
  rcases reaped.proposals id with same | ⟨q, found', -, late, -⟩
  · rw [same, found]
  · rw [found, Option.some_inj] at found'
    subst found'
    omega

end Reaped

section handlers

variable {G : Governance} {ask : (q : Ask) → Answer q} {env : Env}
  {scratch after : Scratch Key Value}

theorem ends_storeBounded {cap : Nat} (ends : Ends ask (G.storeBounded id p cap) scratch () after) :
    after = { scratch with staged := scratch.staged.stage (.prop id) p } := by
  simp only [storeBounded, ends_bind, ends_refuseIf, ends_stage] at ends
  obtain ⟨_, _, ⟨-, rfl⟩, rfl⟩ := ends
  rfl

variable {ids : List String}

theorem ends_stageRoster (ends : Ends ask (G.stageRoster ids) scratch () after) :
    after = { scratch with staged := scratch.staged.stage .proposals ids } := by
  simp only [stageRoster, ends_bind, ends_refuseIf, ends_stage] at ends
  obtain ⟨_, _, ⟨-, rfl⟩, rfl⟩ := ends
  rfl

theorem ends_reapExpired {now : Nat} {proposer : Bytes} {result : Nat × List String}
    (ends : Ends ask (G.reapExpired now proposer ids) scratch result after) :
    Reaped now scratch.staged.get after.staged.get ∧ after.out = scratch.out ∧ result.2.Sublist ids := by
  induction ids generalizing scratch result with
  | nil =>
    obtain ⟨rfl, rfl⟩ := ends
    exact ⟨.refl now _, rfl, .slnil⟩
  | cons id ids ih =>
    simp only [reapExpired, ends_bind, ends_require] at ends
    obtain ⟨_, _, ⟨rfl, rfl⟩, p, _, ⟨found, rfl⟩, ends⟩ := ends
    split at ends
    · rename_i expired
      simp only [ends_bind] at ends
      obtain ⟨_, m, stored, ends⟩ := ends
      rw [ends_storeBounded stored] at ends
      obtain ⟨reaped, out, part⟩ := ih ends
      refine ⟨Reaped.trans ⟨fun other => ?_, by simp, by simp⟩ reaped, out, part.cons id⟩
      simp only [StagedStore.get_stage, proposal_put_prop]
      by_cases same : other = id
      · subst same
        rw [update_self]
        exact .inr ⟨p, found, expired.1, expired.2, rfl⟩
      · exact .inl (update_of_ne same ..)
    · simp only [ends_bind] at ends
      obtain ⟨_, _, rest, rfl, rfl⟩ := ends
      obtain ⟨reaped, out, part⟩ := ih rest
      exact ⟨reaped, out, part.cons_cons id⟩

theorem ends_reapRoster {now : Nat}
    (ends : Ends ask (G.reapRoster now) scratch () after) :
    Reaped now scratch.staged.get after.staged.get ∧ after.out = scratch.out ∧
      (roster after.staged.get).Sublist (roster scratch.staged.get) := by
  simp only [reapRoster, ends_bind] at ends
  obtain ⟨_, _, ⟨rfl, rfl⟩, _, m, reaps, rosters⟩ := ends
  obtain ⟨reaped, out, part⟩ := ends_reapExpired reaps
  rw [ends_stageRoster rosters]
  exact ⟨reaped.trans ⟨fun id => .inl (by simp), by simp, by simp⟩, out, part⟩

/-- Settling writes the proposal and narrows the roster. -/
theorem ends_settle (ends : Ends ask (G.settle id p) scratch () after) :
    proposal after.staged.get = update (proposal scratch.staged.get) id (some p) ∧
      roster after.staged.get = (roster scratch.staged.get).erase id ∧
      shares after.staged.get = shares scratch.staged.get ∧
      shareMode after.staged.get = shareMode scratch.staged.get ∧ after.out = scratch.out := by
  simp only [settle, ends_bind] at ends
  obtain ⟨_, m, stored, _, _, ⟨rfl, rfl⟩, ends⟩ := ends
  rw [ends_storeBounded stored] at ends
  split at ends
  · rw [ends_stageRoster ends]
    simp
  rename_i absent
  obtain ⟨-, rfl⟩ := ends
  simpa using (List.erase_of_not_mem absent).symm

end handlers

/-! ## Enacting -/

/-- The membership change an action asks of valset. -/
def valsetMsg? : GovAction → Option ValsetMsg
  | .addValidator key => some (.join key)
  | .removeValidator key => some (.leave key)
  | .addResident key => some (.grant key)
  | .removeResident key => some (.revoke key)
  | _ => none

/-- The code change an action asks of the registry when it is executed in `env`. -/
def modulesMsg? (env : Env) : GovAction → Option ModulesMsg
  | .updateModule name moduleId lead codeHash =>
    some (.scheduleSwap name moduleId (activationHeight env lead) codeHash)
  | .registerModule name moduleId kind lead codeHash lanes =>
    some (.scheduleRegister name moduleId kind (activationHeight env lead) codeHash lanes)
  | .cancelModuleUpdate name moduleId => some (.cancelSwap name moduleId)
  | _ => none

/-- What performing a passing action does: it is refused, or it emits the action's own message, or it writes
the share records the action names. The indices are the mode and shares before, the action, the status it
settles with, the messages, and the mode and shares after. -/
inductive Enacted (G : Governance) (env : Env) (mode : Bool) (held : Option Shares) :
    GovAction → ProposalStatus → List Msg → Bool → Option Shares → Prop
  | refused {action : GovAction} : Enacted G env mode held action .rejected [] mode held
  | emitsValset {action : GovAction} {msg : ValsetMsg} (asks : valsetMsg? action = some msg) :
      Enacted G env mode held action .passed [⟨G.valsetId, G.govWire.valsetMsg.encode msg⟩] mode held
  | emitsModules {action : GovAction} {msg : ModulesMsg} {registry : ModuleId}
      (asks : modulesMsg? env action = some msg) (wired : G.codeRegistryId = some registry) :
      Enacted G env mode held action .passed [⟨registry, G.govWire.modulesMsg.encode msg⟩] mode held
  | adopts {allocations : List ShareAllocation} (unconfigured : held = none) :
      Enacted G env mode held (.adoptShares allocations) .passed [] true
        (some (.ofList (allocations.map fun a => (a.accountId, a.shares))))
  | setsShares {accountId : AccountNumber} {amount : Nat} {current : Shares} (configured : held = some current) :
      Enacted G env mode held (.setShares accountId amount) .passed [] mode
        (some (withShares current accountId amount))
  | setsMode {enabled : Bool} : Enacted G env mode held (.setShareMode enabled) .passed [] enabled held
  | setsPolicy {target : String} {standing : Option Standing} {aclId : ModuleId}
      (wired : G.aclId = some aclId)
      (safe : electorateCanStillSubmit mode G.id target standing) :
      Enacted G env mode held (.setAclPolicy target standing) .passed
        [⟨aclId, G.wire.aclMsg.encode (.setPolicy target standing)⟩] mode held
  | signals {text : String} : Enacted G env mode held (.signal text) .passed [] mode held

variable {action : GovAction}

/-- Performing an action passes it, or does nothing. -/
theorem Enacted.passed_or_idle {G : Governance} {env : Env} {mode mode' : Bool} {held held' : Option Shares}
    {status : ProposalStatus} {emitted : List Msg}
    (performed : Enacted G env mode held action status emitted mode' held') :
    status = .passed ∨ (emitted = [] ∧ mode' = mode ∧ held' = held) := by
  cases performed with
  | refused => exact .inr ⟨rfl, rfl, rfl⟩
  | _ => exact .inl rfl

section reading

variable {G : Governance}

theorem reads_members : Handler.Reads G.members := by
  refine .bind (.query _ _) fun reply => ?_
  split
  · exact .pure _
  · exact .fail _
  · exact .fail _

theorem reads_residents : Handler.Reads G.residents := by
  refine .bind (.query _ _) fun reply => ?_
  split
  · exact .pure _
  · exact .fail _
  · exact .fail _

theorem reads_standsForPromotion (members : List Bytes) (key : Bytes) :
    Handler.Reads (G.standsForPromotion members key) := by
  unfold standsForPromotion
  split
  · exact .pure _
  · exact .bind reads_residents fun _ => .pure _

theorem reads_identityAccount (q : IdentityQuery) : Handler.Reads (G.identityAccount q) := by
  refine .bind (.query _ _) fun reply => ?_
  split
  · exact .pure _
  all_goals exact .fail _

theorem reads_submitterAccount (submitter : Bytes) : Handler.Reads (G.submitterAccount submitter) := by
  refine .bind (reads_identityAccount _) fun account => ?_
  split
  · exact .pure _
  · exact .fail _

theorem reads_voterOf (kind : VoterKind) (submitter : Bytes) :
    Handler.Reads (G.voterOf kind submitter) := by
  cases kind with
  | validatorNode => exact .pure _
  | account => exact .bind (reads_submitterAccount _) fun _ => .pure _

theorem reads_requireAccount (number : AccountNumber) : Handler.Reads (G.requireAccount number) :=
  .bind (reads_identityAccount _) fun _ => .refuseIf _ _

theorem reads_checkAction (action : GovAction) : Handler.Reads (G.checkAction action) := by
  refine .bind ?_ fun _ => .bind ?_ fun _ => .bind ?_ fun _ => .bind ?_ fun _ => ?_
  · unfold checkMembershipKey
    split
    · exact .refuseIf _ _
    · exact .pure _
  · unfold checkPromotion
    split
    · exact .bind reads_members fun _ => .bind (reads_standsForPromotion _ _) fun _ => .refuseIf _ _
    · exact .pure _
  · unfold checkModuleUpdate
    split
    · exact .bind (.refuseIf _ _) fun _ => .bind (.refuseIf _ _) fun _ => .refuseIf _ _
    · exact .pure _
  · unfold checkSchedule
    split
    · exact .bind (.refuseIf _ _) fun _ => .refuseIf _ _
    · exact .pure _
  · unfold checkAclPolicy
    split
    · exact .bind (.refuseIf _ _) fun _ => .bind (.refuseIf _ _) fun _ =>
        .bind .view fun _ => .refuseIf _ _
    · exact .pure _

theorem reads_frozenElectorate (submitter : Bytes) (action : GovAction) :
    Handler.Reads (G.frozenElectorate submitter action) := by
  refine .bind .view fun s => ?_
  split
  · exact .bind (.require _ _) fun _ => .bind (reads_submitterAccount _) fun _ =>
      .bind (.refuseIf _ _) fun _ => .bind (.ofExcept _) fun _ => .pure _
  · exact .bind reads_members fun _ => .bind (.refuseIf _ _) fun _ =>
      .bind (.ofExcept _) fun _ => .pure _

theorem reads_normalizeAllocations (allocations : List ShareAllocation) (normalized : Shares) :
    Handler.Reads (G.normalizeAllocations allocations normalized) := by
  induction allocations generalizing normalized with
  | nil => exact .pure _
  | cons allocation rest ih =>
    exact .bind (.refuseIf _ _) fun _ => .bind (reads_requireAccount _) fun _ =>
      .bind (.refuseIf _ _) fun _ => ih _

theorem reads_normalizeShareAction (action : GovAction) :
    Handler.Reads (G.normalizeShareAction action) := by
  refine .bind .view fun s => ?_
  split
  · exact .bind (.refuseIf _ _) fun _ => .bind (.refuseIf _ _) fun _ =>
      .bind (reads_normalizeAllocations _ _) fun _ => .bind (.ofExcept _) fun _ => .pure _
  · exact .bind (.require _ _) fun _ => .bind (.refuseIf _ _) fun _ =>
      .bind (reads_requireAccount _) fun _ => .bind (.refuseIf _ _) fun _ =>
        .bind (.ofExcept _) fun _ => .pure _
  · exact .bind (.refuseIf _ _) fun _ => .bind (.refuseIf _ _) fun _ => .pure _
  · exact .pure _

end reading

section enacting

variable {G : Governance} {ask : (q : Ask) → Answer q} {env : Env}
  {scratch after : Scratch Key Value} {status : ProposalStatus} {action : GovAction}

/-- What `enact` leaves, in terms of what it started from. -/
def EnactedIn (G : Governance) (env : Env) (action : GovAction) (status : ProposalStatus)
    (scratch after : Scratch Key Value) : Prop :=
  ∃ emitted, Enacted G env (shareMode scratch.staged.get) (shares scratch.staged.get) action status
      emitted (shareMode after.staged.get) (shares after.staged.get) ∧
    proposal after.staged.get = proposal scratch.staged.get ∧
    after.out.emitted = scratch.out.emitted ++ emitted

/-- What performing an action writes: nothing, or the share records. -/
inductive Writes (s : Store) : GovAction → Store → Prop
  | nothing {action : GovAction} : Writes s action s
  | adopts {allocations : List ShareAllocation} : Writes s (.adoptShares allocations)
      (put (put s .shares (.ofList (allocations.map fun a => (a.accountId, a.shares)))) .mode true)
  | sets {accountId : AccountNumber} {amount : Nat} {current : Shares} (configured : shares s = some current) :
      Writes s (.setShares accountId amount) (put s .shares (withShares current accountId amount))
  | mode {enabled : Bool} : Writes s (.setShareMode enabled) (put s .mode enabled)

theorem Writes.roster_eq {s s' : Store} (writes : Writes s action s') : roster s' = roster s := by
  cases writes <;> simp

/-- What `enact` does and writes. -/
def Enacts (G : Governance) (env : Env) (action : GovAction) (status : ProposalStatus)
    (scratch after : Scratch Key Value) : Prop :=
  EnactedIn G env action status scratch after ∧ Writes scratch.staged.get action after.staged.get

theorem enacts_refused (ends : Ends ask (pure .rejected : Op ProposalStatus) scratch status after) :
    Enacts G env action status scratch after := by
  obtain ⟨rfl, rfl⟩ := ends_pure.mp ends
  exact ⟨⟨[], .refused, rfl, by simp⟩, .nothing⟩

theorem enacts_valset {msg : ValsetMsg} (asks : valsetMsg? action = some msg)
    (ends : Ends ask (do G.emitValset msg; pure .passed) scratch status after) :
    Enacts G env action status scratch after := by
  obtain ⟨_, _, rfl, rfl, rfl⟩ := ends
  exact ⟨⟨_, .emitsValset asks, rfl, rfl⟩, .nothing⟩

theorem enacts_modules {msg : ModulesMsg} (asks : modulesMsg? env action = some msg)
    (ends : Ends ask (G.emitModules msg) scratch status after) :
    Enacts G env action status scratch after := by
  unfold emitModules at ends
  split at ends
  · rename_i wired
    obtain ⟨_, _, rfl, rfl, rfl⟩ := ends
    exact ⟨⟨_, .emitsModules asks wired, rfl, rfl⟩, .nothing⟩
  · exact enacts_refused ends

/-- Performing an action is refused, emits its message, or writes the share records. -/
theorem ends_enact (ends : Ends ask (G.enact env action) scratch status after) :
    Enacts G env action status scratch after := by
  cases action with
  | addValidator key =>
    simp only [enact, ends_bind] at ends
    obtain ⟨members, _, read, stands, _, standing, ends⟩ := ends
    obtain rfl := reads_members _ _ _ _ read
    obtain rfl := reads_standsForPromotion _ _ _ _ _ _ standing
    split at ends
    · exact enacts_refused ends
    · exact enacts_valset rfl ends
  | removeValidator key =>
    simp only [enact, ends_bind] at ends
    obtain ⟨members, _, read, ends⟩ := ends
    obtain rfl := reads_members _ _ _ _ read
    split at ends
    · exact enacts_refused ends
    · exact enacts_valset rfl ends
  | addResident key =>
    simp only [enact, ends_bind] at ends
    obtain ⟨members, _, read, ends⟩ := ends
    obtain rfl := reads_members _ _ _ _ read
    split at ends
    · exact enacts_refused ends
    obtain ⟨residents, _, read', rest⟩ := ends_bind.mp ends
    obtain rfl := reads_residents _ _ _ _ read'
    split at rest
    · exact enacts_refused rest
    · exact enacts_valset rfl rest
  | removeResident key => exact enacts_valset rfl ends
  | updateModule | registerModule | cancelModuleUpdate => exact enacts_modules rfl ends
  | adoptShares allocations =>
    simp only [enact, ends_bind] at ends
    obtain ⟨_, _, ⟨rfl, rfl⟩, ends⟩ := ends
    split at ends
    · exact enacts_refused ends
    rename_i unconfigured
    split at ends
    · exact enacts_refused ends
    obtain ⟨_, _, rfl, _, _, rfl, rfl, rfl⟩ := ends
    refine ⟨⟨[], ?_, by simp, by simp⟩, by simpa using .adopts⟩
    exact Enacted.adopts (by simpa using unconfigured)
  | setShares accountId amount =>
    simp only [enact, ends_bind] at ends
    obtain ⟨_, _, ⟨rfl, rfl⟩, ends⟩ := ends
    split at ends
    · exact enacts_refused ends
    rename_i configured
    split at ends
    · exact enacts_refused ends
    split at ends
    · exact enacts_refused ends
    · obtain ⟨_, _, rfl, rfl, rfl⟩ := ends
      exact ⟨⟨[], by simpa using Enacted.setsShares configured, by simp, by simp⟩, by simpa using .sets configured⟩
  | setShareMode enabled =>
    simp only [enact, ends_bind] at ends
    obtain ⟨_, _, ⟨rfl, rfl⟩, ends⟩ := ends
    split at ends
    · exact enacts_refused ends
    · obtain ⟨_, _, rfl, rfl, rfl⟩ := ends
      exact ⟨⟨[], Enacted.setsMode, by simp, by simp⟩, by simpa using .mode⟩
  | setAclPolicy target standing =>
    simp only [enact] at ends
    split at ends
    · exact enacts_refused ends
    rename_i wired
    simp only [ends_bind] at ends
    obtain ⟨_, _, ⟨rfl, rfl⟩, ends⟩ := ends
    split at ends
    · rename_i safe
      obtain ⟨_, _, rfl, rfl, rfl⟩ := ends
      exact ⟨⟨_, .setsPolicy wired safe, rfl, rfl⟩, .nothing⟩
    · exact enacts_refused ends
  | signal text =>
    obtain ⟨rfl, rfl⟩ := ends_pure.mp ends
    exact ⟨⟨[], .signals, rfl, by simp⟩, .nothing⟩

end enacting

/-! ## Effects -/

/-- The rule passes with these powers. -/
def Met : VotingRule → Nat → Nat → Prop
  | .threshold requiredYes, yes, _ => requiredYes ≤ yes
  | .participatingMajority quorum, yes, no => quorum ≤ yes + no ∧ no < yes

instance (rule : VotingRule) (yes no : Nat) : Decidable (Met rule yes no) :=
  match rule with
  | .threshold _ => inferInstanceAs (Decidable (_ ≤ _))
  | .participatingMajority _ => inferInstanceAs (Decidable (_ ∧ _))

theorem decideRule_fst {rule : VotingRule} {yes no total : Nat} :
    (decideRule rule yes no total).1 = true ↔ Met rule yes no := by
  cases rule <;> simp [decideRule, Met]

/-- The electorate a proposal by `submitter` freezes in `s`, with siblings answering `ask`. -/
def Freezes (G : Governance) (ask : (q : Ask) → Answer q) (s : Store) (submitter : Bytes)
    (action : GovAction) (proposer : Bytes) (electorate : Electorate) : Prop :=
  ∃ scratch : Scratch Key Value, scratch.staged.get = s ∧
    Ends ask (G.frozenElectorate submitter action) scratch (proposer, electorate) scratch

/-- The action a proposal records: an allocation is put in the order of its accounts, anything else stays as
it was proposed. -/
def recordedAs : GovAction → GovAction
  | .adoptShares allocations =>
    let held : Shares := allocations.foldl (fun held a => held.insert a.accountId a.shares) ∅
    .adoptShares (held.toList.map fun (n, amount) => ⟨n, amount⟩)
  | action => action

/-- What an accepted operation finds and does. -/
inductive Effect (G : Governance) (ask : (q : Ask) → Answer q) (env : Env) (s : Store) :
    GovMsg → List Msg → Store → Prop
  /-- A proposal is recorded under a fresh id with the electorate of this moment. -/
  | propose {id : String} {action : GovAction} {period : Nat} {submitter proposer : Bytes}
      {electorate : Electorate} {m s' : Store}
      (origin : env.origin = .external submitter)
      (fresh : proposal s id = none)
      (frozen : Freezes G ask s submitter action proposer electorate)
      (reaped : Reaped env.consensusTime s m)
      (made : proposal s' = update (proposal m) id (some ⟨recordedAs action, proposer,
        env.consensusTime, env.consensusTime + period, .open, ∅, electorate⟩))
      (held : shares s' = shares s)
      (mode : shareMode s' = shareMode s) :
      Effect G ask env s (.propose id action period) [] s'
  /-- A principal of the frozen electorate casts its one ballot before the deadline. -/
  | vote {id : String} {approve : Bool} {p : Proposal} {voter : Bytes} {m s' : Store}
      (reaped : Reaped env.consensusTime s m)
      (found : proposal m id = some p)
      (isOpen : p.status = .open)
      (early : env.consensusTime < p.deadline)
      (seated : voter ∈ p.electorate.powers)
      (cast : proposal s' = update (proposal m) id
        (some { p with votes := p.votes.insert voter approve }))
      (held : shares s' = shares s)
      (mode : shareMode s' = shareMode s) :
      Effect G ask env s (.vote id approve) [] s'
  /-- A proposal past its execution window is rejected. -/
  | expire {id : String} {p : Proposal} {s' : Store}
      (found : proposal s id = some p)
      (isOpen : p.status = .open)
      (late : p.executionDeadline ≤ env.consensusTime)
      (settled : proposal s' = update (proposal s) id (some { p with status := .rejected }))
      (held : shares s' = shares s)
      (mode : shareMode s' = shareMode s) :
      Effect G ask env s (.execute id) [] s'
  /-- A proposal is tallied and settled; it passes only by its frozen rule. -/
  | execute {id : String} {p : Proposal} {status : ProposalStatus} {emitted : List Msg}
      {m s' : Store}
      (found : proposal s id = some p)
      (isOpen : p.status = .open)
      (inside : env.consensusTime < p.executionDeadline)
      (reaped : Reaped env.consensusTime s m)
      (earned : status = .passed → Met p.electorate.rule (p.power true) (p.power false))
      (performed : Enacted G env (shareMode s) (shares s) p.action status emitted (shareMode s')
        (shares s'))
      (settled : proposal s' = update (proposal m) id (some { p with status := status })) :
      Effect G ask env s (.execute id) emitted s'
  /-- An invite is redeemed. -/
  | redeem {issuer nonce tokenSig joiner proof : Bytes} {expires : Nat} {s' : Store}
      (proposals : proposal s' = proposal s)
      (held : shares s' = shares s)
      (mode : shareMode s' = shareMode s) :
      Effect G ask env s (.redeem issuer nonce tokenSig joiner proof expires)
        [⟨G.valsetId, G.govWire.valsetMsg.encode (.grant joiner)⟩] s'

section effects

variable {G : Governance} {ask : (q : Ask) → Answer q} {env : Env}
  {scratch after : Scratch Key Value} {id : String}

theorem externalOrigin_eq_ok {key : Bytes} (ok : externalOrigin env = .ok key) :
    env.origin = .external key := by
  unfold externalOrigin at ok
  split at ok
  · rename_i origin
    rw [origin, Except.ok.inj ok]
  · cases ok

/-- What an accepted `Propose` went through: the electorate it froze, the store `m` the reaper left with the
ids it kept, and the record it put. -/
structure Proposing (G : Governance) (ask : (q : Ask) → Answer q) (env : Env) (id : String) (action : GovAction)
    (scratch m after : Scratch Key Value) (submitter : Bytes) (kept : Nat × List String) (p : Proposal) : Prop where
  origin : env.origin = .external submitter
  fresh : proposal scratch.staged.get id = none
  froze : Ends ask (G.frozenElectorate submitter action) scratch (p.proposer, p.electorate) scratch
  reaps : Ends ask (G.reapExpired env.consensusTime p.proposer (roster scratch.staged.get)) scratch kept m
  room : kept.2.length < maxProposals
  few : kept.1 < maxOpenProposalsPerSubmitter
  normalized : Ends ask (G.normalizeShareAction action) m p.action m
  half : (G.proposalBytes p).length ≤ maxProposalRecordBytes / 2
  fits : (G.rosterBytes (insertSorted id kept.2)).length ≤ maxRosterRecordBytes
  written : after = { m with staged := (m.staged.stage (.prop id) p).stage .proposals (insertSorted id kept.2) }

theorem ends_handlePropose {period : Nat}
    (ends : Ends ask (G.handlePropose env id action period) scratch () after) :
    ∃ submitter proposer electorate recorded kept m, Proposing G ask env id action scratch m after submitter kept
      ⟨recorded, proposer, env.consensusTime, env.consensusTime + period, .open, ∅, electorate⟩ := by
  simp only [handlePropose, storeBounded, stageRoster, ends_bind, ends_refuseIf, ends_view, ends_ofExcept,
    ends_stage, and_assoc, exists_and_left, exists_eq_left', exists_const] at ends
  obtain ⟨-, -, -, _, _, checked, fresh, submitter, origin, ⟨proposer, electorate⟩, _, froze, kept, m, reaps, room,
    few, recorded, _, normalized, -, half, fits, written⟩ := ends
  obtain rfl := reads_checkAction _ _ _ _ _ checked
  obtain rfl := reads_frozenElectorate _ _ _ _ _ _ froze
  obtain rfl := reads_normalizeShareAction _ _ _ _ _ normalized
  exact ⟨submitter, proposer, electorate, recorded, kept, _, externalOrigin_eq_ok origin, by simpa using fresh,
    froze, reaps, not_le.mp room, not_le.mp few, normalized, not_lt.mp half, not_lt.mp fits, written.symm⟩

theorem ends_normalizeAllocations {allocations : List ShareAllocation} {held result : Shares}
    (ends : Ends ask (G.normalizeAllocations allocations held) scratch result after) :
    result = allocations.foldl (fun held a => held.insert a.accountId a.shares) held := by
  induction allocations generalizing held scratch with
  | nil => exact (ends_pure.mp ends).1.symm
  | cons allocation rest ih =>
    simp only [normalizeAllocations, ends_bind] at ends
    obtain ⟨_, _, -, _, _, -, _, _, -, ends⟩ := ends
    exact ih ends

theorem ends_normalizeShareAction {recorded : GovAction}
    (ends : Ends ask (G.normalizeShareAction action) scratch recorded after) : recorded = recordedAs action := by
  simp only [normalizeShareAction, ends_bind] at ends
  obtain ⟨_, _, ⟨rfl, rfl⟩, ends⟩ := ends
  split at ends
  · simp only [ends_bind] at ends
    obtain ⟨_, _, -, _, _, -, normalized, _, normalizes, _, _, -, rfl, -⟩ := ends
    rw [recordedAs, ends_normalizeAllocations normalizes]
  · simp only [ends_bind] at ends
    obtain ⟨_, _, -, _, _, -, _, _, -, _, _, -, _, _, -, rfl, -⟩ := ends
    rfl
  · simp only [ends_bind] at ends
    obtain ⟨_, _, -, _, _, -, rfl, -⟩ := ends
    rfl
  · rename_i notAdopting _ _
    obtain ⟨rfl, -⟩ := ends_pure.mp ends
    cases action <;> first | rfl | exact absurd rfl (notAdopting _)

theorem propose_effect {period : Nat}
    (ends : Ends ask (G.handlePropose env id action period) scratch () after) :
    Effect G ask env scratch.staged.get (.propose id action period) [] after.staged.get ∧
      after.out = scratch.out := by
  obtain ⟨submitter, proposer, electorate, recorded, kept, m, made⟩ := ends_handlePropose ends
  obtain ⟨reaped, out, -⟩ := ends_reapExpired made.reaps
  obtain rfl := ends_normalizeShareAction made.normalized
  have written : proposal after.staged.get = update (proposal m.staged.get) id (some
      ⟨recordedAs action, proposer, env.consensusTime, env.consensusTime + period, .open, ∅, electorate⟩) := by
    simp [made.written]
  refine ⟨.propose made.origin made.fresh ⟨_, rfl, made.froze⟩ reaped written ?_ ?_, by rw [made.written, ← out]⟩
  · simpa [made.written] using reaped.shares
  · simpa [made.written] using reaped.mode

/-- What an accepted `Vote` went through: the store `m` the reaper left, and the ballot it put there. -/
theorem ends_handleVote {approve : Bool}
    (ends : Ends ask (G.handleVote env id approve) scratch () after) :
    ∃ m p voter, Ends ask (G.reapRoster env.consensusTime) scratch () m ∧ proposal m.staged.get id = some p ∧
      p.status = .open ∧ env.consensusTime < p.deadline ∧ voter ∈ p.electorate.powers ∧
      (G.proposalBytes { p with votes := p.votes.insert voter approve }).length ≤ maxProposalRecordBytes ∧
      after = { m with staged := m.staged.stage (.prop id) { p with votes := p.votes.insert voter approve } } := by
  simp only [handleVote, storeProposal, storeBounded, ends_bind, ends_refuseIf, ends_view, ends_ofExcept,
    ends_require, ends_stage, and_assoc, exists_and_left, exists_eq_left', exists_const] at ends
  obtain ⟨_, m, reaps, p, found, isOpen, early, _, -, voter, _, speaks, seated, fits, rfl⟩ := ends
  obtain rfl := reads_voterOf _ _ _ _ _ _ speaks
  exact ⟨_, p, voter, reaps, found, not_not.mp isOpen, not_le.mp early, not_not.mp seated, not_lt.mp fits, rfl⟩

theorem vote_effect {approve : Bool} (ends : Ends ask (G.handleVote env id approve) scratch () after) :
    Effect G ask env scratch.staged.get (.vote id approve) [] after.staged.get ∧
      after.out = scratch.out := by
  obtain ⟨m, p, voter, reaps, found, isOpen, early, seated, -, rfl⟩ := ends_handleVote ends
  obtain ⟨reaped, out, -⟩ := ends_reapRoster reaps
  refine ⟨.vote reaped found isOpen early seated ?_ ?_ ?_, out⟩
  · simp
  · exact reaped.shares
  · exact reaped.mode

/-- What an accepted `Execute` went through: the proposal is past its window and is rejected, or the roster is
reaped, the action performed where the tally passes, and the proposal settled. -/
theorem ends_handleExecute (ends : Ends ask (G.handleExecute env id) scratch () after) :
    ∃ p, proposal scratch.staged.get id = some p ∧ p.status = .open ∧
      (p.executionDeadline ≤ env.consensusTime ∧
          Ends ask (G.settle id { p with status := .rejected }) scratch () after ∨
        env.consensusTime < p.executionDeadline ∧ ∃ m status t,
          Ends ask (G.reapRoster env.consensusTime) scratch () m ∧ Enacts G env p.action status m t ∧
          (status = .passed → Met p.electorate.rule (p.power true) (p.power false)) ∧
          Ends ask (G.settle id { p with status := status }) t () after) := by
  simp only [handleExecute, ends_bind, ends_require, ends_refuseIf] at ends
  obtain ⟨_, _, ⟨rfl, rfl⟩, p, _, ⟨found, rfl⟩, _, _, ⟨isOpen, rfl⟩, ends⟩ := ends
  refine ⟨p, found, not_not.mp isOpen, ?_⟩
  split at ends
  · rename_i late
    exact .inl ⟨late, ends⟩
  rename_i inside
  simp only [ends_bind, ends_ofExcept, ends_refuseIf] at ends
  obtain ⟨_, m, reaps, total, _, ⟨-, rfl⟩, _, _, ⟨-, rfl⟩, status, t, decided, settles⟩ := ends
  refine .inr ⟨not_le.mp inside, m, status, t, reaps, ?_⟩
  -- the tally either performs the action or rejects
  unfold conclude at decided
  split at decided
  · rename_i passes
    exact ⟨ends_enact decided, fun _ => decideRule_fst.mp passes, settles⟩
  · refine ⟨enacts_refused decided, fun passed => ?_, settles⟩
    rw [← (ends_pure.mp decided).1] at passed
    cases passed

theorem execute_effect (ends : Ends ask (G.handleExecute env id) scratch () after) :
    ∃ emitted, Effect G ask env scratch.staged.get (.execute id) emitted after.staged.get ∧
      after.out.emitted = scratch.out.emitted ++ emitted := by
  obtain ⟨p, found, isOpen, ⟨late, ends⟩ | ⟨inside, m, status, t, reaps, ⟨performs, -⟩, earned, settles⟩⟩ :=
    ends_handleExecute ends
  · obtain ⟨settled, -, held, mode, out⟩ := ends_settle ends
    exact ⟨[], .expire found isOpen late settled held mode, by simp [out]⟩
  obtain ⟨reaped, reapedOut, -⟩ := ends_reapRoster reaps
  obtain ⟨settled, -, held, mode, out⟩ := ends_settle settles
  obtain ⟨emitted, performed, proposals, emits⟩ := performs
  rw [proposals] at settled
  rw [← held, ← mode, reaped.shares, reaped.mode] at performed
  exact ⟨emitted, .execute found isOpen inside reaped earned performed settled, by rw [out, emits, reapedOut]⟩

/-- An accepted redemption records the nonce and grants the joiner standing. -/
theorem ends_handleRedeem {issuer nonce tokenSig joiner proof : Bytes} {expires : Nat}
    (ends : Ends ask (G.handleRedeem env issuer nonce tokenSig joiner proof expires) scratch () after) :
    after = ⟨scratch.staged.stage (.red nonce) ⟨joiner, issuer, env.height⟩, { scratch.out with
      emitted := scratch.out.emitted ++ [⟨G.valsetId, G.govWire.valsetMsg.encode (.grant joiner)⟩] }⟩ := by
  simp only [handleRedeem, emitValset, ends_bind, ends_ofExcept,
    ends_require, ends_refuseIf, ends_view, ends_stage,
    ends_emitMsg, and_assoc, exists_and_left, exists_eq_left', exists_const] at ends
  obtain ⟨_, -, _, -, _, -, _, -, -, _, -, _, -, -, -, _, _, members, -, -, _, _, residents, -, -, rfl⟩ := ends
  rw [reads_residents _ _ _ _ residents, reads_members _ _ _ _ members]

theorem redeem_effect {issuer nonce tokenSig joiner proof : Bytes} {expires : Nat}
    (ends : Ends ask (G.handleRedeem env issuer nonce tokenSig joiner proof expires) scratch
      () after) :
    Effect G ask env scratch.staged.get (.redeem issuer nonce tokenSig joiner proof expires)
        [⟨G.valsetId, G.govWire.valsetMsg.encode (.grant joiner)⟩] after.staged.get ∧
      after.out.emitted
        = scratch.out.emitted ++ [⟨G.valsetId, G.govWire.valsetMsg.encode (.grant joiner)⟩] := by
  rw [ends_handleRedeem ends]
  exact ⟨.redeem (by simp) (by simp) (by simp), rfl⟩

/-- An accepted operation has one of the listed effects. -/
theorem handle_effect {msg : GovMsg} (ends : Ends ask (G.handle env msg) scratch () after) :
    ∃ emitted, Effect G ask env scratch.staged.get msg emitted after.staged.get ∧
      after.out.emitted = scratch.out.emitted ++ emitted := by
  cases msg with
  | propose =>
    obtain ⟨effect, out⟩ := propose_effect ends
    exact ⟨[], effect, by simp [out]⟩
  | vote =>
    obtain ⟨effect, out⟩ := vote_effect ends
    exact ⟨[], effect, by simp [out]⟩
  | execute => exact execute_effect ends
  | redeem => exact ⟨_, redeem_effect ends⟩

end effects

end Ducktape.Governance
