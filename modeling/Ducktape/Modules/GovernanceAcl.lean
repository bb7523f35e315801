import Ducktape.Host.Isolation
import Ducktape.Modules.GovernanceSteps

/-! # Governance and its own submit policy

Governance writes the acl table by emitting `SetPolicy`; the table decides who may submit to
governance. `Joint` holds both modules' stores, `Joint.step` runs one governance call with the
follow-ups it sends the acl, and `Admitted` says the standing required of a submitter to governance
is one the electorate of the current mode holds.

A passing action keeps that only under `Spares`: a change of the voting mode has to fit the policy in
force, and clearing governance's own entry has to fit the wildcard's (`admitted_iff`). Hence
`admitted_run`: runs that only pass sparing actions keep governance open to its electorate. -/

namespace Ducktape.Acl

open Lib Handler Std Option ExtTreeMap

/-! ## The table after a change -/

/-- A change sets the target's entry and no other. -/
theorem updated_lookup {entries : Table} {target : String} {standing : Option Standing}
    {result : Option Table} (ok : updated entries target standing = .ok result) (other : String) :
    (result.getD entries)[other]? = if target = other then standing else entries[other]? := by
  unfold updated at ok
  split at ok
  · rename_i found
    split at ok
    · rename_i same
      obtain rfl := Except.ok.inj ok
      split
      · rename_i named
        rw [← named, ← same]
        exact found
      · rfl
    · obtain rfl := Except.ok.inj ok
      rw [getD_some, getElem?_insert]
      simp only [Std.compare_eq_iff_eq]
  · obtain rfl := Except.ok.inj ok
    rw [getD_some, getElem?_erase]
    simp only [Std.compare_eq_iff_eq]
  · rename_i found
    obtain rfl := Except.ok.inj ok
    split
    · rename_i named
      rw [← named]
      exact found
    · rfl
  · split at ok
    · cases ok
    · obtain rfl := Except.ok.inj ok
      rw [getD_some, getElem?_insert]
      simp only [Std.compare_eq_iff_eq]

section handlers

variable {A : Acl} {ask : (q : Ask) → Answer q} {env : Env} {scratch after : Scratch Key Value}
  {standing : Option Standing}

theorem ends_storeTable {entries : Table}
    (ends : Ends ask (storeTable entries) scratch () after) :
    table after.staged.get = entries := by
  unfold storeTable at ends
  split at ends
  · rename_i empty
    obtain rfl := ends_delete.mp ends
    simp [table, isEmpty_iff.mp empty]
  · obtain rfl := ends_stage.mp ends
    simp [table]

/-- An accepted `SetPolicy` sets the target's entry and no other. -/
theorem ends_handleSetPolicy {target : String}
    (ends : Ends ask (handleSetPolicy target standing) scratch () after) (other : String) :
    (table after.staged.get)[other]?
      = if target = other then standing else (table scratch.staged.get)[other]? := by
  simp only [handleSetPolicy, ends_bind, ends_refuseIf, ends_ofExcept] at ends
  obtain ⟨_, _, ⟨-, rfl⟩, _, _, ⟨-, rfl⟩, _, _, ⟨rfl, rfl⟩, result, _, ⟨ok, rfl⟩, ends⟩ := ends
  rw [← updated_lookup ok other]
  cases result with
  | none =>
    obtain ⟨-, rfl⟩ := ends_pure.mp ends
    rfl
  | some entries => rw [ends_storeTable ends, getD_some]

end handlers

end Ducktape.Acl

namespace Ducktape.Governance

open Lib Handler

/-! ## The joint state -/

/-- Can the electorate of this mode hold the required standing? -/
def holdable (shareMode : Bool) : Option Standing → Bool
  | none | some .open => true
  | some .user => shareMode
  | some .node | some .validator => !shareMode

/-- How the two modules are wired: governance writes this acl, the acl takes changes from this
governance, and nothing else governance emits to is the acl. The shared codec is lossless. -/
structure Wired (G : Governance) (A : Acl) : Prop where
  acl : ∀ aclId, G.aclId = some aclId → aclId = A.id
  valset : G.valsetId ≠ A.id
  registry : G.codeRegistryId ≠ some A.id
  wire : ∀ target standing, A.wire.aclMsg.decode (G.wire.aclMsg.encode (.setPolicy target standing))
    = .ok (.setPolicy target standing)

/-- Both modules' stores. -/
structure Joint where
  gov : StagedStore Key Value
  acl : StagedStore Acl.Key Acl.Value

/-- Run what governance emitted at the acl, in order; a refusal rejects the whole unit. Messages to
other modules change neither store. -/
def deliver (G : Governance) (A : Acl) (call : Invocation GovMsg) :
    List Msg → StagedStore Acl.Key Acl.Value → Option (StagedStore Acl.Key Acl.Value)
  | [], staged => some staged
  | msg :: rest, staged =>
    if msg.target = A.id then
      match (A.execute { call.env with origin := .module G.id } msg ⟨staged, default⟩).eval call.ask with
      | (.ok (), s) => deliver G A call rest s.staged
      | (.error _, _) => none
    else deliver G A call rest staged

/-- One governance call with its follow-ups; `none` where the unit is rejected. -/
def Joint.accepted (G : Governance) (A : Acl) (j : Joint) (call : Invocation GovMsg) : Option Joint :=
  match call.accepted G.handle j.gov with
  | none => none
  | some (gov, out) => (deliver G A call out.emitted j.acl).map fun acl => ⟨gov, acl⟩

/-- The joint state after a call; a rejected unit leaves no trace. -/
def Joint.step (G : Governance) (A : Acl) (j : Joint) (call : Invocation GovMsg) : Joint :=
  (j.accepted G A call).getD j

/-- The joint state after a run. -/
def Joint.run (G : Governance) (A : Acl) (j : Joint) (calls : List (Invocation GovMsg)) : Joint :=
  calls.foldl (Joint.step G A) j

/-- The standing the acl requires for submitting to governance is one the electorate of the current
mode can hold. -/
def Admitted (G : Governance) (j : Joint) : Prop :=
  holdable (shareMode j.gov.get) (Acl.policyFor j.acl.get G.id) = true

instance (G : Governance) (j : Joint) : Decidable (Admitted G j) := inferInstanceAs (Decidable (_ = _))

/-- Performing the action leaves governance open to its electorate: a change of mode fits the policy
in force, and clearing governance's own entry fits the wildcard's. -/
def Spares (G : Governance) (j : Joint) : GovAction → Prop
  | .adoptShares _ => holdable true (Acl.policyFor j.acl.get G.id)
  | .setShareMode enabled => holdable enabled (Acl.policyFor j.acl.get G.id)
  | .setAclPolicy target none =>
    target = G.id → holdable (shareMode j.gov.get) (Acl.table j.acl.get)[Acl.wildcardTarget]?
  | _ => True

instance (G : Governance) (j : Joint) : (action : GovAction) → Decidable (Spares G j action)
  | .adoptShares _ | .setShareMode _ => inferInstanceAs (Decidable (_ = true))
  | .setAclPolicy _ none => inferInstanceAs (Decidable (_ → _))
  | .setAclPolicy _ (some _) | .addValidator _ | .removeValidator _ | .addResident _
  | .removeResident _ | .updateModule .. | .registerModule .. | .cancelModuleUpdate ..
  | .setShares .. | .signal _ => .isTrue trivial

/-! ## One passing action -/

section passing

variable {G : Governance} {A : Acl} {call : Invocation GovMsg} {j j' : Joint}
  {staged : StagedStore Acl.Key Acl.Value} {standing : Option Standing} {target : String}

theorem deliver_elsewhere {msg : Msg} (elsewhere : msg.target ≠ A.id) :
    deliver G A call [msg] staged = some staged := by
  simp [deliver, elsewhere]

/-- A delivered `SetPolicy` sets its target's entry and no other. -/
theorem deliver_setPolicy (wired : Wired G A) {staged' : StagedStore Acl.Key Acl.Value}
    (delivered : deliver G A call [⟨A.id, G.wire.aclMsg.encode (.setPolicy target standing)⟩] staged
      = some staged') (other : String) : (Acl.table staged'.get)[other]?
      = if target = other then standing else (Acl.table staged.get)[other]? := by
  simp only [deliver, if_true] at delivered
  split at delivered
  · rename_i s ran
    obtain rfl := Option.some.inj delivered
    have ends : Ends call.ask (A.execute { call.env with origin := .module G.id }
        ⟨A.id, G.wire.aclMsg.encode (.setPolicy target standing)⟩) ⟨staged, default⟩ () s := ran
    simp only [Acl.execute, wired.wire, ends_bind, ends_ofExcept] at ends
    obtain ⟨_, _, ⟨-, rfl⟩, ends⟩ := ends
    exact Acl.ends_handleSetPolicy ends other
  · cases delivered

/-- A safe change on a target that governs governance asks for a standing the electorate holds. -/
theorem holdable_of_safe {mode : Bool} (safe : electorateCanStillSubmit mode G.id target standing)
    (governs : target = G.id ∨ target = Acl.wildcardTarget) : holdable mode standing = true := by
  have governs : (target == G.id || target == Acl.wildcardTarget) = true := by simpa using governs
  rw [← safe]
  simp only [electorateCanStillSubmit, governs]
  rcases standing with _ | (_ | _ | _ | _) <;> rfl

/-- After a safe change of the acl the policy on governance is one the electorate holds, unless it
cleared governance's own entry and the wildcard's is not. -/
theorem holdable_setPolicy {mode : Bool} {entries entries' : Acl.Table}
    (admitted : holdable mode (Acl.policyIn entries G.id) = true)
    (safe : electorateCanStillSubmit mode G.id target standing)
    (set : ∀ other, entries'[other]? = if target = other then standing else entries[other]?) :
    holdable mode (Acl.policyIn entries' G.id) = true ↔
      (standing = none → target = G.id → holdable mode entries[Acl.wildcardTarget]? = true) := by
  have kept := holdable_of_safe safe
  unfold Acl.policyIn at admitted ⊢
  rw [set G.id, set Acl.wildcardTarget]
  by_cases own : target = G.id
  · subst own
    cases standing with
    | some standing => simpa using kept (.inl rfl)
    | none =>
      by_cases wild : G.id = Acl.wildcardTarget
      · -- governance named like the wildcard: its own entry is the wildcard's
        rcases found : entries[G.id]? with _ | current <;> simp_all
      · simp [wild]
  · rcases found : entries[G.id]? with _ | current
    · by_cases wild : target = Acl.wildcardTarget
      · rw [if_pos wild]
        simpa [own] using kept (.inr wild)
      · simpa [found, wild, own] using admitted
    · simpa [found, own] using admitted

/-- A passing action leaves governance open to its electorate exactly if it spares it. -/
theorem admitted_iff (wired : Wired G A) (admitted : Admitted G j) {action : GovAction}
    {emitted : List Msg} (performed : Enacted G call.env (shareMode j.gov.get) (shares j.gov.get) action
      .passed emitted (shareMode j'.gov.get) (shares j'.gov.get))
    (delivered : deliver G A call emitted j.acl = some j'.acl) :
    Admitted G j' ↔ Spares G j action := by
  have quiet : emitted = [] → j'.acl = j.acl := by
    rintro rfl
    exact (Option.some.inj delivered).symm
  unfold Admitted at admitted ⊢
  generalize shareMode j'.gov.get = mode' at performed
  generalize shares j'.gov.get = held' at performed
  cases performed with
  | emitsValset asks =>
    rw [deliver_elsewhere wired.valset] at delivered
    cases action <;> simp_all [valsetMsg?, Spares]
  | @emitsModules _ msg registry asks registered =>
    have elsewhere : registry ≠ A.id := fun same => wired.registry (same ▸ registered)
    rw [deliver_elsewhere elsewhere] at delivered
    cases action <;> simp_all [modulesMsg?, Spares]
  | adopts | setsMode => rw [quiet rfl, Spares]
  | setsShares | signals => simpa [quiet rfl, Spares] using admitted
  | @setsPolicy target standing aclId isWired safe =>
    obtain rfl := wired.acl aclId isWired
    have set := deliver_setPolicy wired delivered
    rw [Acl.policyFor, holdable_setPolicy admitted safe set]
    cases standing <;> simp [Spares]

/-- An accepted call with its follow-ups, in terms of its effect. -/
theorem accepted_effect (landed : j.accepted G A call = some j') :
    ∃ emitted, Effect G call.ask call.env j.gov.get call.msg emitted j'.gov.get ∧
      deliver G A call emitted j.acl = some j'.acl := by
  unfold Joint.accepted at landed
  split at landed
  · cases landed
  rename_i out accepted
  obtain ⟨acl, delivered, rfl⟩ := Option.map_eq_some_iff.mp landed
  obtain ⟨emitted, effect, emits⟩ := handle_effect (Invocation.accepted_iff.mp accepted)
  obtain rfl : out.emitted = emitted := emits
  exact ⟨_, effect, delivered⟩

end passing

/-! ## Runs -/

/-- If the call can pass a proposal, the proposal's action spares governance: it is the execution of
an open proposal whose frozen rule is met and whose execution window is not over. -/
def SparesAt (G : Governance) (j : Joint) (call : Invocation GovMsg) : Prop :=
  match call.msg with
  | .execute id => ∀ p ∈ proposal j.gov.get id, p.status = .open →
      Met p.electorate.rule (p.power true) (p.power false) →
      call.env.consensusTime < p.executionDeadline → Spares G j p.action
  | _ => True

instance (G : Governance) (j : Joint) : (call : Invocation GovMsg) → Decidable (SparesAt G j call)
  | ⟨_, _, .execute id⟩ => inferInstanceAs (Decidable (∀ p ∈ proposal j.gov.get id, _))
  | ⟨_, _, .propose ..⟩ | ⟨_, _, .vote ..⟩ | ⟨_, _, .redeem ..⟩ => .isTrue trivial

/-- Every call of the run spares governance in the state it finds. -/
def SparesAlong (G : Governance) (A : Acl) : Joint → List (Invocation GovMsg) → Prop
  | _, [] => True
  | j, call :: calls => SparesAt G j call ∧ SparesAlong G A (j.step G A call) calls

instance decidableSparesAlong (G : Governance) (A : Acl) :
    (j : Joint) → (calls : List (Invocation GovMsg)) → Decidable (SparesAlong G A j calls)
  | _, [] => .isTrue trivial
  | j, call :: calls =>
    have := decidableSparesAlong G A (j.step G A call) calls
    inferInstanceAs (Decidable (_ ∧ _))

section runs

variable {G : Governance} {A : Acl} {j j' : Joint} {call : Invocation GovMsg}

/-- A landed call that spares governance leaves it open to its electorate. -/
theorem admitted_accepted (wired : Wired G A) (admitted : Admitted G j) (spares : SparesAt G j call)
    (landed : j.accepted G A call = some j') : Admitted G j' := by
  obtain ⟨emitted, effect, delivered⟩ := accepted_effect landed
  -- what performs nothing and changes neither record
  have idle : shareMode j'.gov.get = shareMode j.gov.get → j'.acl = j.acl → Admitted G j' := by
    intro mode acl
    rw [Admitted, mode, acl]
    exact admitted
  have quiet : emitted = [] → j'.acl = j.acl := by
    rintro rfl
    exact (Option.some.inj delivered).symm
  unfold SparesAt at spares
  generalize call.msg = msg at effect spares
  cases effect with
  | propose origin fresh frozen reaped made held mode
  | vote reaped found isOpen early seated cast held mode
  | expire found isOpen late settled held mode => exact idle mode (quiet rfl)
  | @execute id p status _ m _ found isOpen inside reaped earned performed settled =>
    rcases performed.passed_or_idle with rfl | ⟨rfl, mode, held⟩
    · rw [admitted_iff wired admitted performed delivered]
      exact spares p found isOpen (earned rfl) inside
    · exact idle mode (quiet rfl)
  | redeem proposals held mode =>
    rw [deliver_elsewhere wired.valset, Option.some_inj] at delivered
    exact idle mode delivered.symm

theorem admitted_step (wired : Wired G A) (admitted : Admitted G j) (spares : SparesAt G j call) :
    Admitted G (j.step G A call) := by
  unfold Joint.step
  cases landed : j.accepted G A call with
  | none => exact admitted
  | some j' => exact admitted_accepted wired admitted spares landed

/-- From a state in which governance is open to its electorate, a run whose passing actions all spare
it keeps it so. -/
theorem admitted_run (G : Governance) (A : Acl) (wired : Wired G A) (j : Joint)
    (admitted : Admitted G j) (calls : List (Invocation GovMsg)) (spares : SparesAlong G A j calls) :
    Admitted G (j.run G A calls) := by
  induction calls generalizing j with
  | nil => exact admitted
  | cons call calls ih => exact ih _ (admitted_step wired admitted spares.1) spares.2

end runs

/-! ## A network of one validator -/

/-- A standing in one byte. -/
def standingByte : Option Standing → UInt8
  | none => 0
  | some .open => 1
  | some .user => 2
  | some .node => 3
  | some .validator => 4

def byteStanding (b : UInt8) : Option Standing :=
  if b = 1 then some .open else if b = 2 then some .user else if b = 3 then some .node
  else if b = 4 then some .validator else none

theorem byteStanding_standingByte (standing : Option Standing) :
    byteStanding (standingByte standing) = standing := by
  rcases standing with _ | (_ | _ | _ | _) <;> rfl

/-- A lossless codec for the acl's one operation. -/
def aclCodec : Codec AclMsg where
  encode | .setPolicy target standing => standingByte standing :: utf8 target
  decode
    | b :: rest => (fromUtf8 rest).elim (.error "not UTF-8") fun target => .ok (.setPolicy target (byteStanding b))
    | [] => .error "empty payload"
  debug _ := "SetPolicy"

theorem aclCodec_roundTrips : aclCodec.RoundTrips := by
  rintro ⟨target, standing⟩
  simp [aclCodec, byteStanding_standingByte]

/-- A codec that reads one fixed value. -/
def fixedCodec {α : Type} (value : α) : Codec α := ⟨fun _ => [], fun _ => .ok value, fun _ => ""⟩

/-- The wire of a network whose one validator is `[1]`, the key of account 7. -/
def soloWire : Wire :=
  { blankWire with
    aclMsg := aclCodec
    valsetReply := fixedCodec (.validators [[1]])
    identityReply := fixedCodec (.account (some ⟨7, "", .revoked 0, [], none, none, 0⟩)) }

def solo : Governance where
  id := "governance"
  valsetId := "valset"
  codeRegistryId := none
  identityId := "identity"
  aclId := some "acl"
  inviteBinding := none
  wire := soloWire
  govWire := ⟨blankCodec _, blankCodec _⟩
  invites := ⟨fun _ => .error "", fun _ => .error "", fun _ _ _ _ => false⟩
  proposalBytes _ := []
  rosterBytes _ := []

def soloAcl : Acl := ⟨"acl", "governance", soloWire⟩

theorem solo_wired : Wired solo soloAcl where
  acl _ named := (Option.some.inj named).symm
  valset := by decide
  registry := by decide
  wire target standing := aclCodec_roundTrips (.setPolicy target standing)

/-- A call by the one validator. -/
def soloCall (msg : GovMsg) : Invocation GovMsg where
  ask
    | .query _ _ => .ok []
    | .root _ => none
  env := { (default : Env) with origin := .external [1] }
  msg := msg

/-- The validator proposes an action, votes for it and executes it. -/
def passing (id : String) (action : GovAction) : List (Invocation GovMsg) :=
  [soloCall (.propose id action 10), soloCall (.vote id true), soloCall (.execute id)]

/-- Both stores before anything was done. -/
def Joint.genesis : Joint := ⟨.new fun _ => none, .new fun _ => none⟩

/-- Adopting shares first and then asking for accounts keeps governance open. -/
theorem admitted_run_solo : Admitted solo (Joint.genesis.run solo soloAcl
    (passing "a" (.adoptShares [⟨7, 1⟩]) ++
      passing "b" (.setAclPolicy "governance" (some .user)))) :=
  admitted_run solo soloAcl solo_wired .genesis (by decide) _ (by decide)

/-- Asking for validators first and then adopting shares does not: the share electorate can no longer
submit to governance. -/
theorem admitted_run_lost : Admitted solo .genesis ∧ ¬ Admitted solo (Joint.genesis.run solo soloAcl
    (passing "a" (.setAclPolicy "governance" (some .validator)) ++
      passing "b" (.adoptShares [⟨7, 1⟩]))) := by
  decide

end Ducktape.Governance
