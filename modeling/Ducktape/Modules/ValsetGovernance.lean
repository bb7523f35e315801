import Ducktape.Modules.GovernanceSound
import Ducktape.Modules.ValsetRuns

/-! # Membership decisions and the validator set

Governance decides membership by emitting an operation at the validator set; a refusal there rolls the
deciding unit back. `Joint` holds both modules' stores, `Joint.accepted` runs one governance call with its
follow-ups, `Reachable` are the joint states of whole runs.

In all of them a decided proposal is settled: rejected where the membership makes its action impossible, and
otherwise passed with the action done, exactly if the key it adds is one that the validator set can decode.
Governance checks only a key's width, so the condition is not idle (`membership_takes_effect`). -/

namespace Ducktape.Membership

open Lib Handler Option Invocation Governance Valset

/-! ## The joint state -/

/-- Both modules' stores. -/
structure Joint where
  gov : StagedStore Governance.Key Governance.Value
  val : StagedStore Valset.Key Valset.Value

section joint

variable (G : Governance) (V : Valset)

/-- How the two modules are wired. They share their codecs, which are lossless where they are used, and the
key decoder, which takes keys of one width. -/
structure Wired : Prop where
  valset : G.valsetId = V.id
  governance : V.governanceId = G.id
  msg : ∀ msg, V.valsetMsg.decode (G.govWire.valsetMsg.encode msg) = .ok msg
  query : ∀ q, V.wire.valsetQuery.decode (G.wire.valsetQuery.encode q) = .ok q
  validators : ∀ tier, Valset.TierSound tier →
    G.wire.valsetReply.decode (V.wire.valsetReply.encode (.validators tier)) = .ok (.validators tier)
  residents : ∀ tier, Valset.TierSound tier →
    G.wire.valsetReply.decode (V.wire.valsetReply.encode (.residents tier)) = .ok (.residents tier)
  keys : G.invites.decodeKey = V.decodeKey
  width : ∀ bytes, (V.decodeKey bytes).isOk → bytes.length = Valset.keyLen
  sizes : Governance.Sizes G

/-- The siblings as governance sees them: the validator set answers from its staged state. -/
def siblings (val : StagedStore Valset.Key Valset.Value) (ask : (q : Ask) → Answer q) : (q : Ask) → Answer q
  | .query target request =>
    if target = V.id then ((V.query request ⟨val, default⟩).eval ask).1 else ask (.query target request)
  | .root target => ask (.root target)

/-- The call, with the validator set answering. -/
def Joint.governing (j : Joint) (call : Invocation GovMsg) : Invocation GovMsg :=
  { call with ask := siblings V j.val call.ask }

/-- A follow-up of governance, as the validator set receives it. -/
def followUp (call : Invocation GovMsg) (msg : Msg) : Invocation Msg :=
  ⟨call.ask, { call.env with origin := .module G.id }, msg⟩

/-- Run what governance emitted, in order; a refusal rejects the whole unit. `elsewhere` says which messages
the other modules take. -/
def deliver (call : Invocation GovMsg) (elsewhere : Msg → Bool) :
    List Msg → StagedStore Valset.Key Valset.Value → Option (StagedStore Valset.Key Valset.Value)
  | [], val => some val
  | msg :: rest, val =>
    if msg.target = V.id then
      match (followUp G call msg).accepted V.execute val with
      | some (val', _) => deliver call elsewhere rest val'
      | none => none
    else if elsewhere msg then deliver call elsewhere rest val
    else none

/-- One governance call with its follow-ups; `none` where the unit is rejected. -/
def Joint.accepted (j : Joint) (call : Invocation GovMsg) (elsewhere : Msg → Bool) : Option Joint :=
  match (j.governing V call).accepted G.handle j.gov with
  | none => none
  | some (gov, out) => (deliver G V call elsewhere out.emitted j.val).map fun val => ⟨gov, val⟩

/-- The joint states of whole runs: units of governance, other calls of the validator set, and blocks
committed or aborted. -/
inductive Reachable : Joint → Prop
  | genesis {ask keys s} :
      Ends ask (Valset.initialise keys) ⟨.new fun _ => none, default⟩ () s →
      Reachable ⟨.new fun _ => none, s.staged⟩
  | unit {j} (call : Invocation GovMsg) (elsewhere : Msg → Bool) : Reachable j →
      Reachable ((j.accepted G V call elsewhere).getD j)
  | call {j} (call : Invocation Msg) : Reachable j →
      Reachable { j with val := call.settle V.execute j.val }
  | commit {j ask s} : Reachable j → Ends ask Valset.commitBlock ⟨j.val, default⟩ () s →
      Reachable ⟨j.gov.commit, s.staged⟩
  | abort {j ask s} : Reachable j → Ends ask Valset.abortBlock ⟨j.val, default⟩ () s →
      Reachable ⟨j.gov.abort, s.staged⟩

end joint

/-! ## Joint invariants -/

section invariant

variable {G : Governance} {V : Valset} {j : Joint}

theorem deliver_reachable {call : Invocation GovMsg} {elsewhere : Msg → Bool} {msgs : List Msg}
    {val val' : StagedStore Valset.Key Valset.Value} {history : List Valset.Tiers}
    (delivered : deliver G V call elsewhere msgs val = some val')
    (reachable : Valset.Reachable V val history) : Valset.Reachable V val' history := by
  induction msgs generalizing val with
  | nil =>
    obtain rfl := some.inj delivered
    exact reachable
  | cons msg rest ih =>
    unfold deliver at delivered
    split at delivered
    · split at delivered
      · rename_i accepted
        refine ih delivered ?_
        have settled := reachable.call (followUp G call msg)
        rwa [Invocation.settle, accepted] at settled
      · cases delivered
    · split at delivered
      · exact ih delivered reachable
      · cases delivered

/-- In every joint run the validator set runs as it does alone, and governance's records are sound. -/
theorem Reachable.parts (wired : Wired G V) (reachable : Reachable G V j) :
    (∃ history, Valset.Reachable V j.val history) ∧ Governance.Sound G j.gov.get ∧
      Governance.Sound G j.gov.store := by
  induction reachable with
  | genesis ends =>
    exact ⟨⟨_, .genesis ends⟩, sound_empty wired.sizes, sound_empty wired.sizes⟩
  | @unit j call elsewhere _ ih =>
    cases landed : j.accepted G V call elsewhere with
    | none => exact ih
    | some j' =>
      obtain ⟨⟨history, seats⟩, sound, committed⟩ := ih
      unfold Joint.accepted at landed
      split at landed
      · cases landed
      rename_i gov out accepted
      obtain ⟨val, delivered, rfl⟩ := map_eq_some_iff.mp landed
      have ends := accepted_iff.mp accepted
      have store : gov.store = j.gov.store := stages_handle call.msg _ _ _ _ ends
      exact ⟨⟨history, deliver_reachable delivered seats⟩, handle_sound wired.sizes sound ends,
        store ▸ committed⟩
  | call call _ ih =>
    obtain ⟨⟨history, seats⟩, sound⟩ := ih
    exact ⟨⟨history, seats.call call⟩, sound⟩
  | @commit j ask s _ ends ih =>
    obtain ⟨⟨history, seats⟩, sound, -⟩ := ih
    refine ⟨?_, sound, sound⟩
    by_cases same : (tiersOf j.val.store).SameMembers (tiersOf s.staged.store)
    · exact ⟨history, seats.stays ends same⟩
    · exact ⟨_, seats.changes ends same⟩
  | abort _ ends ih =>
    obtain ⟨⟨history, seats⟩, -, committed⟩ := ih
    exact ⟨⟨history, seats.abort ends⟩, committed, committed⟩

end invariant

/-! ## What governance reads -/

/-- The staged tiers. -/
def Joint.tiers (j : Joint) : Valset.Tiers := Valset.tiersOf j.val.get

section reading

variable {G : Governance} {V : Valset} {j : Joint} {ask : (q : Ask) → Answer q}
  {s s' : Scratch Governance.Key Governance.Value} {read : List Bytes}

theorem Reachable.keeps (wired : Wired G V) (reachable : Reachable G V j) :
    Valset.Holds j.val.get j.tiers ∧ j.tiers.Sound := by
  obtain ⟨⟨history, seats⟩, -⟩ := reachable.parts wired
  obtain ⟨base, now, keeps⟩ := seats.invariant
  have same : j.tiers = now := keeps.staged_eq
  exact same ▸ ⟨keeps.stagedHolds, keeps.stagedSound⟩

/-- What the validator set answers. -/
theorem siblings_query {request reply : Bytes} {val : StagedStore Valset.Key Valset.Value}
    {after : Scratch Valset.Key Valset.Value}
    (answers : Ends ask (V.query request) ⟨val, default⟩ reply after) :
    siblings V val ask (.query V.id request) = .ok reply := by
  have first := congrArg Prod.fst (show (V.query request ⟨val, default⟩).eval ask = _ from answers)
  rw [siblings, if_pos rfl]
  exact first

/-- A tier that governance asks for and decodes. -/
theorem ends_asked (wired : Wired G V) {request reply : Bytes} {f : Bytes → Governance.Op (List Bytes)}
    {tier : List Bytes} (answers : Ends ask (V.query request) ⟨j.val, default⟩ reply ⟨j.val, default⟩)
    (decodes : f reply = pure tier) :
    Ends (siblings V j.val ask) (query G.valsetId request >>= f) s read s' ↔ tier = read ∧ s = s' := by
  simp only [ends_bind, ends_query, wired.valset, siblings_query answers]
  constructor
  · rintro ⟨_, _, ⟨same, rfl⟩, ends⟩
    rw [← Except.ok.inj same, decodes] at ends
    exact ends_pure.mp ends
  · rintro ⟨rfl, rfl⟩
    exact ⟨_, _, ⟨rfl, rfl⟩, decodes ▸ ends_pure.mpr ⟨rfl, rfl⟩⟩

section tiers

variable (wired : Wired G V) (holds : Valset.Holds j.val.get j.tiers) (sound : j.tiers.Sound)
include wired holds sound

theorem ends_members :
    Ends (siblings V j.val ask) G.members s read s' ↔ j.tiers.validators = read ∧ s = s' := by
  refine ends_asked wired ?_ (by rw [wired.validators _ sound.validators])
  rw [Valset.query, wired.query, ends_bind]
  exact ⟨_, _, (ends_tier holds.validators sound.validators).mpr ⟨rfl, rfl⟩, ends_pure.mpr ⟨rfl, rfl⟩⟩

theorem ends_residents :
    Ends (siblings V j.val ask) G.residents s read s' ↔ j.tiers.residents = read ∧ s = s' := by
  refine ends_asked wired ?_ (by rw [wired.residents _ sound.residents])
  rw [Valset.query, wired.query, ends_bind]
  exact ⟨_, _, (ends_tier holds.residents sound.residents).mpr ⟨rfl, rfl⟩, ends_pure.mpr ⟨rfl, rfl⟩⟩

end tiers

end reading

/-! ## Deciding membership -/

/-- The membership rules the action out: the tier is full, the key has no standing to be promoted, is a
validator already, or is the last one. -/
def Impossible (tiers : Valset.Tiers) : GovAction → Prop
  | .addValidator key => key ∉ tiers.validators ∧
      (maxMembers ≤ tiers.validators.length ∨ key ∉ tiers.residents)
  | .removeValidator key => ∀ member ∈ tiers.validators, member = key
  | .addResident key => key ∈ tiers.validators ∨
      key ∉ tiers.residents ∧ maxMembers ≤ tiers.residents.length
  | _ => False

instance (tiers : Valset.Tiers) : (action : GovAction) → Decidable (Impossible tiers action)
  | .addValidator _ => inferInstanceAs (Decidable (_ ∧ _))
  | .removeValidator _ => inferInstanceAs (Decidable (∀ member ∈ tiers.validators, _))
  | .addResident _ => inferInstanceAs (Decidable (_ ∨ _))
  | .removeResident _ | .signal _ | .adoptShares _ | .setShares .. | .setShareMode _ | .updateModule ..
  | .registerModule .. | .cancelModuleUpdate .. | .setAclPolicy .. => .isFalse not_false

/-- How a passing action settles. -/
def outcome (tiers : Valset.Tiers) (action : GovAction) : ProposalStatus :=
  if Impossible tiers action then .rejected else .passed

/-- What a passing action emits. -/
def emits (G : Governance) (tiers : Valset.Tiers) (action : GovAction) (msg : ValsetMsg) : List Msg :=
  if Impossible tiers action then [] else [⟨G.valsetId, G.govWire.valsetMsg.encode msg⟩]

/-- The key an action adds is one the validator set can decode. -/
def KeyDecodes (V : Valset) : GovAction → Prop
  | .addValidator key | .addResident key => (V.decodeKey key).isOk = true
  | _ => True

section deciding

variable {G : Governance} {V : Valset} {j : Joint}

theorem validateKey_isOk (wired : Wired G V) (key : Bytes) :
    (V.validateKey key).isOk = true ↔ (V.decodeKey key).isOk = true := by
  constructor
  · intro valid
    have width := width_of_valid valid
    rw [validateKey, if_neg (not_not.mpr width)] at valid
    cases decoded : V.decodeKey key with
    | ok _ => rfl
    | error text =>
      rw [decoded] at valid
      cases valid
  · intro decodes
    rw [validateKey, if_neg (not_not.mpr (wired.width key decodes))]
    cases decoded : V.decodeKey key with
    | ok _ => rfl
    | error text =>
      rw [decoded] at decodes
      cases decodes

variable {action : GovAction} {msg : ValsetMsg}

/-- An operation that is not ruled out is refused only for its key. -/
theorem applied_isSome (wired : Wired G V) (member : valsetMsg? action = some msg)
    (possible : ¬ Impossible j.tiers action) :
    (applied V j.tiers msg).isSome ↔ KeyDecodes V action := by
  cases action with
  | addValidator key =>
    obtain rfl := some.inj member
    simp only [applied, KeyDecodes, ← validateKey_isOk wired]
    have room : key ∈ j.tiers.validators ∨ j.tiers.validators.length < maxMembers := by
      simp only [Impossible, not_and_or, not_or, not_le] at possible
      tauto
    simp [room]
  | removeValidator key =>
    obtain rfl := some.inj member
    have others : ¬ (key ∈ j.tiers.validators ∧ j.tiers.validators.length = 1) := by
      rintro ⟨seated, single⟩
      obtain ⟨only, single⟩ := List.length_eq_one_iff.mp single
      rw [Impossible, single] at possible
      rw [single, List.mem_singleton] at seated
      simp [seated] at possible
    simp [applied, KeyDecodes, others]
  | addResident key =>
    obtain rfl := some.inj member
    simp only [applied, KeyDecodes, ← validateKey_isOk wired]
    simp only [Impossible, not_or, not_and_or, not_not, not_le] at possible
    simp [possible]
  | removeResident key =>
    obtain rfl := some.inj member
    simp [applied, KeyDecodes]
  | _ => cases member

section enacting

variable (wired : Wired G V) (holds : Valset.Holds j.val.get j.tiers) (sound : j.tiers.Sound)
  (ask : (q : Ask) → Answer q) (m : Scratch Governance.Key Governance.Value)
include wired holds sound

theorem standsForPromotion_ends (key : Bytes) :
    Ends (siblings V j.val ask) (G.standsForPromotion j.tiers.validators key) m
      (decide (key ∈ j.tiers.validators ∨ key ∈ j.tiers.residents)) m := by
  unfold standsForPromotion
  split
  · rename_i seated
    exact ends_pure.mpr ⟨by simp [seated], rfl⟩
  · rename_i absent
    refine ends_bind.mpr ⟨_, _, (ends_residents wired holds sound).mpr ⟨rfl, rfl⟩, ?_⟩
    exact ends_pure.mpr ⟨by simp [absent], rfl⟩

omit wired holds sound in
/-- Settling and emitting, as `outcome` and `emits` say. -/
theorem settles_ends (msg : ValsetMsg) {ruledOut : Prop} [Decidable ruledOut]
    (same : ruledOut ↔ Impossible j.tiers action) :
    Ends (siblings V j.val ask)
      (if ruledOut then pure .rejected else do G.emitValset msg; pure .passed) m (outcome j.tiers action)
      { m with out := { m.out with emitted := m.out.emitted ++ emits G j.tiers action msg } } := by
  by_cases impossible : Impossible j.tiers action
  · rw [if_pos (same.mpr impossible), outcome, if_pos impossible, emits, if_pos impossible]
    exact ends_pure.mpr ⟨rfl, by simp⟩
  · rw [if_neg (mt same.mp impossible), outcome, if_neg impossible, emits, if_neg impossible]
    exact ends_bind.mpr ⟨(), _, ends_emitMsg.mpr rfl, ends_pure.mpr ⟨rfl, rfl⟩⟩

/-- What performing a membership action comes to. -/
theorem enact_ends (member : valsetMsg? action = some msg) (env : Env) :
    Ends (siblings V j.val ask) (G.enact env action) m (outcome j.tiers action)
      { m with out := { m.out with emitted := m.out.emitted ++ emits G j.tiers action msg } } := by
  have members : Ends (siblings V j.val ask) G.members m j.tiers.validators m :=
    (ends_members wired holds sound).mpr ⟨rfl, rfl⟩
  cases action with
  | addValidator key =>
    obtain rfl := some.inj member
    refine ends_bind.mpr ⟨_, _, members, ends_bind.mpr
      ⟨_, _, standsForPromotion_ends wired holds sound ask m key, settles_ends ask m _ ?_⟩⟩
    simp only [Impossible, decide_eq_true_eq]
    tauto
  | removeValidator key =>
    obtain rfl := some.inj member
    exact ends_bind.mpr ⟨_, _, members, settles_ends ask m _ Iff.rfl⟩
  | addResident key =>
    obtain rfl := some.inj member
    refine ends_bind.mpr ⟨_, _, members, ?_⟩
    by_cases seated : key ∈ j.tiers.validators
    · have impossible : Impossible j.tiers (.addResident key) := .inl seated
      rw [if_pos seated, outcome, if_pos impossible, emits, if_pos impossible]
      exact ends_pure.mpr ⟨rfl, by simp⟩
    · rw [if_neg seated]
      refine ends_bind.mpr ⟨_, _, (ends_residents wired holds sound).mpr ⟨rfl, rfl⟩,
        settles_ends ask m _ ?_⟩
      simp [Impossible, seated]
  | removeResident key =>
    obtain rfl := some.inj member
    exact ends_bind.mpr ⟨(), _, ends_emitMsg.mpr rfl, ends_pure.mpr ⟨rfl, rfl⟩⟩
  | _ => cases member

end enacting

/-! ## The unit -/

section units

variable {call : Invocation GovMsg} {elsewhere : Msg → Bool}

/-- What a membership operation makes of the tiers when it is delivered. -/
theorem deliver_tiers (wired : Wired G V) (holds : Valset.Holds j.val.get j.tiers) (sound : j.tiers.Sound)
    (msg : ValsetMsg) :
    (deliver G V call elsewhere [⟨G.valsetId, G.govWire.valsetMsg.encode msg⟩] j.val).map
      (fun val => Valset.tiersOf val.get) = Valset.applied V j.tiers msg := by
  have authorized : V.authorize { call.env with origin := .module G.id } = .ok () := by
    simp [Valset.authorize, wired.governance]
  have performs : Valset.Performs call.ask (V.handleMsg msg) ⟨j.val, default⟩ _ :=
    Valset.performs_handleMsg holds sound msg
  have same : ∀ s', Ends call.ask (V.execute { call.env with origin := .module G.id }
      ⟨G.valsetId, G.govWire.valsetMsg.encode msg⟩) ⟨j.val, default⟩ () s' ↔
      Ends call.ask (V.handleMsg msg) ⟨j.val, default⟩ () s' := by
    intro s'
    simp only [Valset.execute, ends_bind, ends_ofExcept, authorized, wired.msg]
    constructor
    · rintro ⟨_, _, ⟨-, rfl⟩, ends⟩
      exact ends
    · intro ends
      exact ⟨(), _, ⟨trivial, rfl⟩, ends⟩
  simp only [deliver, wired.valset]
  cases accepted : (followUp G call ⟨V.id, G.govWire.valsetMsg.encode msg⟩).accepted V.execute j.val with
  | none =>
    cases result : Valset.applied V j.tiers msg with
    | none => rfl
    | some tiers =>
      rw [result] at performs
      obtain ⟨s', ends, -⟩ := performs
      rw [Invocation.accepted_iff.mpr ((same s').mpr ends)] at accepted
      cases accepted
  | some taken =>
    have ends := (same _).mp (Invocation.accepted_iff.mp accepted)
    obtain ⟨tiers, result, stages⟩ := performs.stages ends
    rw [result]
    exact congrArg some (stages.holds.tiersOf_eq (sound.applied result))

/-- Governance's side of executing a decided membership proposal. -/
theorem accepted_execute (wired : Wired G V) (reachable : Reachable G V j) {id : String}
    {p : Governance.Proposal} (executes : call.msg = .execute id)
    (member : valsetMsg? p.action = some msg) (found : proposal j.gov.get id = some p)
    (isOpen : p.status = .open) (inside : call.env.consensusTime < p.executionDeadline)
    (decided : Governance.Decided p call.env.consensusTime) :
    ∃ gov, proposal gov.get id = some { p with status := outcome j.tiers p.action } ∧
      j.accepted G V call elsewhere
        = (deliver G V call elsewhere (emits G j.tiers p.action msg) j.val).map fun val => ⟨gov, val⟩ := by
  obtain ⟨holds, sound⟩ := reachable.keeps wired
  obtain ⟨-, govSound, -⟩ := reachable.parts wired
  have performs := fun m => enact_ends wired holds sound call.ask m member call.env
  obtain ⟨after, ends, settled, emitted⟩ := @Governance.handleExecute_ends G _ call.env ⟨j.gov, default⟩ id p
    wired.sizes govSound found isOpen inside decided _ _ performs
  refine ⟨after.staged, settled, ?_⟩
  have accepted : (j.governing V call).accepted G.handle j.gov = some (after.staged, after.out) := by
    rw [accepted_iff]
    show Ends _ (G.handle call.env call.msg) _ _ _
    rw [executes]
    exact ends
  rw [Joint.accepted, accepted]
  simp only [emitted]
  rfl

/-- What an accepted redemption found, and what it emits. -/
theorem accepted_redeem (wired : Wired G V) (reachable : Reachable G V j)
    {issuer nonce tokenSig joiner proof : Bytes} {expires : Nat}
    (redeems : call.msg = .redeem issuer nonce tokenSig joiner proof expires)
    {gov : StagedStore Governance.Key Governance.Value} {out : Outputs}
    (accepted : (j.governing V call).accepted G.handle j.gov = some (gov, out)) :
    (V.decodeKey joiner).isOk = true ∧ joiner ∉ j.tiers.validators ∧ joiner ∉ j.tiers.residents ∧
      out.emitted = [⟨G.valsetId, G.govWire.valsetMsg.encode (.grant joiner)⟩] := by
  obtain ⟨holds, sound⟩ := reachable.keeps wired
  have ends := accepted_iff.mp accepted
  replace ends : Ends (siblings V j.val call.ask) (G.handle call.env call.msg) _ _ _ := ends
  rw [redeems] at ends
  obtain ⟨-, emitted⟩ := redeem_effect ends
  simp only [handle, handleRedeem, ends_bind, ends_ofExcept,
    ends_require, ends_refuseIf, ends_members wired holds sound,
    ends_residents wired holds sound] at ends
  obtain ⟨_, _, ⟨-, rfl⟩, _, _, ⟨-, rfl⟩, _, _, ⟨-, rfl⟩, joinerKey, _, ⟨decodes, rfl⟩, ends⟩ := ends
  obtain ⟨_, _, ⟨-, rfl⟩, _, _, ⟨-, rfl⟩, _, _, ⟨-, rfl⟩, _, _, ⟨-, rfl⟩, _, _, ⟨-, rfl⟩, ends⟩ := ends
  obtain ⟨_, _, ⟨rfl, rfl⟩, _, _, ⟨-, rfl⟩, _, _, ⟨unseated, rfl⟩, _, _, ⟨rfl, rfl⟩, _, _, ⟨new, rfl⟩, -⟩ := ends
  refine ⟨?_, unseated, new, emitted⟩
  rw [decoded, wired.keys] at decodes
  cases decoded : V.decodeKey joiner with
  | ok _ => rfl
  | error text =>
    rw [decoded] at decodes
    cases decodes

/-- **A membership decision takes effect**, in every reachable joint state.

* Executing a decided proposal inside its window settles it. If the membership rules its action out, it is
  settled rejected and the validator set is left alone. If not, the unit is accepted exactly if the key it
  adds decodes, and then the proposal has passed and its action is done.
* A redemption that governance accepts is accepted as a unit exactly if the resident tier has room, and then
  the joiner is a resident. -/
theorem membership_takes_effect (wired : Wired G V) (reachable : Reachable G V j)
    (call : Invocation GovMsg) (elsewhere : Msg → Bool) :
    (∀ id p msg, call.msg = .execute id → Governance.proposal j.gov.get id = some p →
      valsetMsg? p.action = some msg → p.status = .open →
      call.env.consensusTime < p.executionDeadline → Governance.Decided p call.env.consensusTime →
      if Impossible j.tiers p.action then
        ∃ j', j.accepted G V call elsewhere = some j' ∧ j'.val = j.val ∧
          Governance.proposal j'.gov.get id = some { p with status := .rejected }
      else
        ((j.accepted G V call elsewhere).isSome ↔ KeyDecodes V p.action) ∧
        ∀ j', j.accepted G V call elsewhere = some j' →
          Governance.proposal j'.gov.get id = some { p with status := .passed } ∧
          Valset.applied V j.tiers msg = some j'.tiers) ∧
    ∀ issuer nonce tokenSig joiner proof expires,
      call.msg = .redeem issuer nonce tokenSig joiner proof expires →
      ((j.governing V call).accepted G.handle j.gov).isSome →
      ((j.accepted G V call elsewhere).isSome ↔ j.tiers.residents.length < maxMembers) ∧
      ∀ j', j.accepted G V call elsewhere = some j' → joiner ∈ j'.tiers.residents := by
  obtain ⟨holds, sound⟩ := reachable.keeps wired
  have delivers := fun msg => @deliver_tiers G V j call elsewhere wired holds sound msg
  refine ⟨?_, ?_⟩
  · intro id p msg executes found member isOpen inside decided
    obtain ⟨gov, settled, accepted⟩ : ∃ gov, _ ∧ j.accepted G V call elsewhere = _ :=
      accepted_execute wired reachable executes member found isOpen inside decided
    split
    · rename_i impossible
      rw [emits, if_pos impossible] at accepted
      rw [outcome, if_pos impossible] at settled
      exact ⟨⟨gov, j.val⟩, accepted, rfl, settled⟩
    · rename_i possible
      rw [emits, if_neg possible] at accepted
      rw [outcome, if_neg possible] at settled
      rw [accepted, Option.isSome_map, ← applied_isSome wired member possible, ← delivers msg, Option.isSome_map]
      refine ⟨Iff.rfl, fun j' landed => ?_⟩
      obtain ⟨val, delivered, rfl⟩ := Option.map_eq_some_iff.mp landed
      exact ⟨settled, by rw [delivered]; rfl⟩
  · intro issuer nonce tokenSig joiner proof expires redeems governed
    obtain ⟨⟨gov, out⟩, accepted⟩ := Option.isSome_iff_exists.mp governed
    obtain ⟨decodes, unseated, new, emitted⟩ := accepted_redeem wired reachable redeems accepted
    have valid := (validateKey_isOk wired joiner).mpr decodes
    have delivered := delivers (.grant joiner)
    rw [Valset.applied] at delivered
    simp only [valid, unseated, new, not_false_eq_true, true_and, false_or] at delivered
    rw [Joint.accepted, accepted]
    simp only [emitted, Option.isSome_map]
    refine ⟨?_, fun j' landed => ?_⟩
    · rw [← Option.isSome_map, delivered]
      split <;> simp [*]
    · obtain ⟨val, run, rfl⟩ := Option.map_eq_some_iff.mp landed
      rw [run] at delivered
      split at delivered
      · have tiers : Valset.tiersOf val.get = _ := Option.some.inj delivered
        show joiner ∈ (Valset.tiersOf val.get).residents
        rw [tiers]
        exact (sound.residents.mem_withMember joiner).mpr (.inl rfl)
      · cases delivered

end units

end deciding

/-! ## A network of one validator -/

/-- A key decoder that takes 32 bytes unless they are all `2`, which is no curve point. -/
def sampleDecode (bytes : Bytes) : Except String Bytes :=
  if bytes.length = Valset.keyLen ∧ bytes ≠ Valset.sampleKey 2 then .ok bytes else .error "not a curve point"

def sampleQuery : Codec ValsetQuery where
  encode
    | .validators => [0]
    | .residents => [1]
    | .meshWindow => [2]
  decode
    | [0] => .ok .validators
    | [1] => .ok .residents
    | [2] => .ok .meshWindow
    | _ => .error "no such query"
  debug _ := "query"

/-- Replies under a one-byte tag. -/
def sampleReply : Codec ValsetReply where
  encode
    | .validators tier => 0 :: Valset.tierFormat.write tier
    | .residents tier => 1 :: Valset.tierFormat.write tier
    | .meshWindow _ => [2]
  decode
    | 0 :: bytes => (Valset.tierFormat.fromSlice bytes).map .validators
    | 1 :: bytes => (Valset.tierFormat.fromSlice bytes).map .residents
    | _ => .ok (.meshWindow [])
  debug _ := "reply"

def sampleWire : Wire := { blankWire with valsetQuery := sampleQuery, valsetReply := sampleReply }

def sampleValset : Valset := ⟨"valset", "governance", sampleWire, Valset.taggedMsg, sampleDecode⟩

def sampleGovernance : Governance where
  id := "governance"
  valsetId := "valset"
  codeRegistryId := none
  identityId := "identity"
  aclId := none
  inviteBinding := none
  wire := sampleWire
  govWire := ⟨Valset.taggedMsg, blankCodec _⟩
  invites := ⟨sampleDecode, fun _ => .error "", fun _ _ _ _ => false⟩
  proposalBytes _ := []
  rosterBytes _ := []

theorem sample_wired : Wired sampleGovernance sampleValset where
  valset := rfl
  governance := rfl
  msg := by rintro ⟨⟩ <;> rfl
  query := by rintro ⟨⟩ <;> rfl
  validators tier sound := by
    show (tierFormat.fromSlice (tierFormat.write tier)).map ValsetReply.validators = _
    rw [(reads_tier sound).fromSlice]
    rfl
  residents tier sound := by
    show (tierFormat.fromSlice (tierFormat.write tier)).map ValsetReply.residents = _
    rw [(reads_tier sound).fromSlice]
    rfl
  keys := rfl
  width bytes decodes := by
    by_contra other
    have refused : sampleDecode bytes = .error "not a curve point" := if_neg fun ok => other ok.1
    rw [show sampleValset.decodeKey bytes = _ from refused] at decodes
    cases decodes
  sizes := ⟨fun _ _ => rfl, fun _ _ _ => le_rfl, by decide⟩

/-- A call by the one validator. -/
def sampleCall (msg : GovMsg) : Invocation GovMsg where
  ask := Valset.noSiblings
  env := { (default : Env) with origin := .external (Valset.sampleKey 1) }
  msg := msg

/-- The founding state. -/
def sampleStart : Joint := ⟨.new fun _ => none, Valset.foundedBy (Valset.sampleKey 1)⟩

/-- A unit of the one validator. -/
def Joint.next (j : Joint) (msg : GovMsg) : Joint :=
  (j.accepted sampleGovernance sampleValset (sampleCall msg) fun _ => false).getD j

/-- The validator proposes to make `key` a resident, and votes for it. -/
def decidedFor (key : Bytes) : Joint :=
  (sampleStart.next (.propose "a" (.addResident key) 10)).next (.vote "a" true)

theorem reachable_decidedFor (key : Bytes) : Reachable sampleGovernance sampleValset (decidedFor key) :=
  .unit _ _ (.unit _ _ (.genesis (ends_left (by decide +kernel))))

/-- The proposal is open and decided. -/
def openFor (key : Bytes) : Bool :=
  (Governance.proposal (decidedFor key).gov.get "a").any fun p =>
    decide (p.action = .addResident key ∧ p.status = .open ∧ 0 < p.executionDeadline ∧ Governance.Decided p 0)

/-- A resident whose key decodes. -/
theorem membership_takes_effect_sample : openFor (Valset.sampleKey 3) ∧
    ((decidedFor (Valset.sampleKey 3)).accepted sampleGovernance sampleValset (sampleCall (.execute "a"))
      fun _ => false).isSome := by
  have isOpen : openFor (Valset.sampleKey 3) = true := by decide +kernel
  refine ⟨isOpen, ?_⟩
  obtain ⟨p, found, checked⟩ := (Option.any_eq_true _ _).mp isOpen
  obtain ⟨action, isOpen, inside, decided⟩ := of_decide_eq_true checked
  have effect := (membership_takes_effect sample_wired (reachable_decidedFor (Valset.sampleKey 3))
    (sampleCall (.execute "a")) fun _ => false).1
    "a" p (.grant (Valset.sampleKey 3)) rfl found (by rw [action]; rfl) isOpen inside decided
  rw [action] at effect
  exact effect.1.mpr (show (sampleDecode (Valset.sampleKey 3)).isOk = true by decide)

/-- A resident whose key does not: the decided proposal was taken at the door, nothing rules it out, and
executing it is refused. -/
theorem membership_refused_sample :
    Reachable sampleGovernance sampleValset (decidedFor (Valset.sampleKey 2)) ∧
      openFor (Valset.sampleKey 2) ∧
      ¬ Impossible (decidedFor (Valset.sampleKey 2)).tiers (.addResident (Valset.sampleKey 2)) ∧
      ((decidedFor (Valset.sampleKey 2)).accepted sampleGovernance sampleValset (sampleCall (.execute "a"))
        fun _ => false) = none :=
  ⟨reachable_decidedFor _, by decide +kernel, by decide +kernel, Option.isNone_iff_eq_none.mp (by decide +kernel)⟩

end Ducktape.Membership
