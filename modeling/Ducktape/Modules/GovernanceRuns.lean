import Ducktape.Modules.GovernanceSteps

/-! # Proposals over whole runs

What every run of governance operations keeps, whatever the siblings answer in between:
`Effect.kept` (a recorded proposal keeps everything but its ballots and its status, and a settled one
keeps those too), `Effect.made` (a record appears only by a proposal on a fresh id),
`Effect.seated` (ballots belong to the frozen electorate) and `Effect.performs` (what an operation
emits or writes to the share records, it does by passing one open proposal).

`frozen_rule` is the statement over runs from genesis. -/

namespace Ducktape.Governance

open Lib Function Option List

/-- The proposal's terms are as they were, and if it was settled so is everything else. -/
structure Kept (p p' : Proposal) : Prop where
  action : p'.action = p.action
  proposer : p'.proposer = p.proposer
  createdAt : p'.createdAt = p.createdAt
  deadline : p'.deadline = p.deadline
  electorate : p'.electorate = p.electorate
  settled : p.status ≠ .open → p' = p

namespace Kept

variable {p q r : Proposal}

theorem refl (p : Proposal) : Kept p p := ⟨rfl, rfl, rfl, rfl, rfl, fun _ => rfl⟩

theorem trans (first : Kept p q) (second : Kept q r) : Kept p r where
  action := second.action.trans first.action
  proposer := second.proposer.trans first.proposer
  createdAt := second.createdAt.trans first.createdAt
  deadline := second.deadline.trans first.deadline
  electorate := second.electorate.trans first.electorate
  settled closed := by
    have same := first.settled closed
    rw [second.settled (same ▸ closed), same]

/-- An open proposal may be settled. -/
theorem of_status (isOpen : p.status = .open) (status : ProposalStatus) :
    Kept p { p with status := status } :=
  ⟨rfl, rfl, rfl, rfl, rfl, fun closed => absurd isOpen closed⟩

/-- An open proposal may take ballots. -/
theorem of_votes (isOpen : p.status = .open) (votes : Std.ExtTreeMap Bytes Bool) :
    Kept p { p with votes := votes } :=
  ⟨rfl, rfl, rfl, rfl, rfl, fun closed => absurd isOpen closed⟩

end Kept

/-- Every ballot is one of the frozen electorate's principals. -/
def Seated (s : Store) : Prop :=
  ∀ id p voter, proposal s id = some p → voter ∈ p.votes → voter ∈ p.electorate.powers

/-- The operation did something in the world: it handed the host a message, or wrote the share
records. -/
def Performs (s s' : Store) (emitted : List Msg) : Prop :=
  emitted ≠ [] ∨ shares s' ≠ shares s ∨ shareMode s' ≠ shareMode s

/-- The proposal an operation passes, if it passes one. -/
def passedBy (s s' : Store) : GovMsg → List String
  | .execute id =>
    if (proposal s id).map Proposal.status = some .open ∧
        (proposal s' id).map Proposal.status = some .passed
      then [id] else []
  | _ => []

theorem mem_passedBy {s s' : Store} {msg : GovMsg} {id : String} :
    id ∈ passedBy s s' msg ↔ msg = .execute id ∧
      (proposal s id).map Proposal.status = some .open ∧
        (proposal s' id).map Proposal.status = some .passed := by
  cases msg with
  | execute other =>
    simp only [passedBy, GovMsg.execute.injEq]
    split
    · rename_i passes
      rw [mem_singleton]
      constructor
      · rintro rfl
        exact ⟨rfl, passes⟩
      · exact fun named => named.1.symm
    · rename_i fails
      simp only [not_mem_nil, false_iff]
      rintro ⟨rfl, passes⟩
      exact fails passes
  | propose | vote | redeem => simp [passedBy]

theorem passedBy_nodup (s s' : Store) (msg : GovMsg) : (passedBy s s' msg).Nodup := by
  unfold passedBy
  split
  · split <;> simp
  · exact nodup_nil

/-! ## One operation -/

section steps

variable {G : Governance} {ask : (q : Ask) → Answer q} {env : Env} {s m s' : Store} {msg : GovMsg}
  {emitted : List Msg} {now : Nat} {id : String} {p : Proposal}

theorem Reaped.kept (reaped : Reaped now s s') (found : proposal s id = some p) :
    ∃ p', proposal s' id = some p' ∧ Kept p p' := by
  rcases reaped.proposals id with same | ⟨q, found', isOpen, -, settled⟩
  · exact ⟨p, by rw [same, found], .refl p⟩
  · obtain rfl : p = q := by simpa [found] using found'
    exact ⟨_, settled, .of_status isOpen .rejected⟩

/-- Rewriting one record by a kept one keeps every record. -/
theorem kept_update {other : String} {p' q : Proposal} (found : proposal s id = some p)
    (kept : Kept p p') (written : proposal s' = update (proposal s) id (some p'))
    (stored : proposal s other = some q) : ∃ q', proposal s' other = some q' ∧ Kept q q' := by
  rw [written]
  by_cases same : other = id
  · subst same
    obtain rfl : p = q := by simpa [found] using stored
    exact ⟨p', update_self .., kept⟩
  · exact ⟨q, by rw [update_of_ne same, stored], .refl q⟩

theorem ne_of_absent {other : String} (absent : proposal s id = none) (found : proposal s other = some p) :
    id ≠ other := by
  rintro rfl
  rw [absent] at found
  cases found

/-- An accepted operation keeps every record. -/
theorem Effect.kept (effect : Effect G ask env s msg emitted s') (found : proposal s id = some p) :
    ∃ p', proposal s' id = some p' ∧ Kept p p' := by
  cases effect with
  | propose origin fresh frozen reaped made held mode =>
    obtain ⟨p', found', kept⟩ := reaped.kept found
    refine ⟨p', ?_, kept⟩
    rw [made, update_of_ne (ne_of_absent fresh found).symm, found']
  | vote reaped found' isOpen early seated cast held mode =>
    obtain ⟨p', stored, kept⟩ := reaped.kept found
    obtain ⟨p'', written, kept'⟩ := kept_update found' (.of_votes isOpen _) cast stored
    exact ⟨p'', written, kept.trans kept'⟩
  | expire found' isOpen late settled held mode =>
    exact kept_update found' (.of_status isOpen _) settled found
  | execute found' isOpen inside reaped earned performed settled =>
    obtain ⟨p', stored, kept⟩ := reaped.kept found
    obtain ⟨p'', written, kept'⟩ :=
      kept_update (reaped.survives found' inside) (.of_status isOpen _) settled stored
    exact ⟨p'', written, kept.trans kept'⟩
  | redeem proposals held mode => exact ⟨p, by rw [proposals, found], .refl p⟩

/-- A record an accepted operation makes is an open proposal without ballots, under the electorate
its submitter freezes at that moment. -/
theorem Effect.made (effect : Effect G ask env s msg emitted s') (absent : proposal s id = none)
    (found : proposal s' id = some p) :
    ∃ action period submitter, msg = .propose id action period ∧
      env.origin = .external submitter ∧ Freezes G ask s submitter action p.proposer p.electorate ∧
      p.action = recordedAs action ∧ p.status = .open ∧ p.votes = ∅ ∧ p.createdAt = env.consensusTime ∧
      p.deadline = env.consensusTime + period := by
  cases effect with
  | @propose id' action period submitter proposer electorate m _ origin fresh frozen reaped
      made held mode =>
      rw [made] at found
      by_cases same : id = id'
      · subst same
        rw [update_self, some_inj] at found
        subst found
        exact ⟨action, period, submitter, rfl, origin, frozen, rfl, rfl, rfl, rfl, rfl⟩
      · rw [update_of_ne same, (reaped.none_iff id).mpr absent] at found
        cases found
  | vote reaped found' isOpen early seated cast held mode =>
    have absent' := (reaped.none_iff id).mpr absent
    rw [cast, update_of_ne (ne_of_absent absent' found'), absent'] at found
    cases found
  | expire found' isOpen late settled held mode =>
    rw [settled, update_of_ne (ne_of_absent absent found'), absent] at found
    cases found
  | execute found' isOpen inside reaped earned performed settled =>
    rw [settled, update_of_ne (ne_of_absent absent found'), (reaped.none_iff id).mpr absent] at found
    cases found
  | redeem proposals held mode =>
    rw [proposals, absent] at found
    cases found

theorem Reaped.seated (reaped : Reaped now s s') (seated : Seated s) : Seated s' := by
  intro id p voter found ballot
  rcases reaped.proposals id with same | ⟨q, found', -, -, settled⟩
  · exact seated id p voter (same ▸ found) ballot
  · rw [settled, some_inj] at found
    subst found
    exact seated id q voter found' ballot

/-- Rewriting one record by a seated one keeps ballots seated. -/
theorem Seated.update (seated : Seated s)
    (written : proposal s' = update (proposal s) id (some p))
    (fits : ∀ voter ∈ p.votes, voter ∈ p.electorate.powers) : Seated s' := by
  intro other q voter found ballot
  rw [written] at found
  by_cases same : other = id
  · subst same
    rw [update_self, some_inj] at found
    subst found
    exact fits voter ballot
  · rw [update_of_ne same] at found
    exact seated other q voter found ballot

/-- An accepted operation keeps ballots inside the frozen electorates. -/
theorem Effect.seated (effect : Effect G ask env s msg emitted s') (seated : Seated s) :
    Seated s' := by
  cases effect with
  | propose origin fresh frozen reaped made held mode =>
    exact (reaped.seated seated).update made (by simp)
  | @vote id approve p voter m _ reaped found isOpen early holds cast held mode =>
    have seated' := reaped.seated seated
    refine seated'.update cast fun other ballot => ?_
    rcases Std.ExtTreeMap.mem_insert.mp ballot with same | cast
    · rw [← Std.compare_eq_iff_eq.mp same]
      exact holds
    · exact seated' id p other found cast
  | @expire id p _ found isOpen late settled held mode =>
    exact seated.update settled fun voter => seated id p voter found
  | @execute id p status _ m _ found isOpen inside reaped earned performed settled =>
    exact (reaped.seated seated).update settled fun voter => seated id p voter found
  | redeem proposals held mode =>
    intro id p voter found
    exact seated id p voter (proposals ▸ found)

/-- What an accepted operation does in the world is an invite's grant, or the action of the one open
proposal it passes: by the frozen rule, inside the execution window. -/
theorem Effect.performs (effect : Effect G ask env s msg emitted s')
    (performs : Performs s s' emitted) :
    (∃ issuer nonce tokenSig joiner proof expires,
      msg = .redeem issuer nonce tokenSig joiner proof expires ∧
        emitted = [⟨G.valsetId, G.govWire.valsetMsg.encode (.grant joiner)⟩] ∧
        shares s' = shares s ∧ shareMode s' = shareMode s) ∨
      ∃ id p, msg = .execute id ∧ proposal s id = some p ∧ p.status = .open ∧
        Met p.electorate.rule (p.power true) (p.power false) ∧
        env.consensusTime < p.deadline + executionGrace ∧
        proposal s' id = some { p with status := .passed } ∧
        Enacted G env (shareMode s) (shares s) p.action .passed emitted (shareMode s') (shares s') := by
  have idle : emitted = [] → shares s' = shares s → shareMode s' = shareMode s → False := by
    rintro rfl held mode
    rcases performs with emits | moved | moved
    · exact emits rfl
    · exact moved held
    · exact moved mode
  cases effect with
  | propose origin fresh frozen reaped made held mode
  | vote reaped found isOpen early seated cast held mode
  | expire found isOpen late settled held mode => exact (idle rfl held mode).elim
  | @execute id p status _ m _ found isOpen inside reaped earned performed settled =>
    rcases performed.passed_or_idle with rfl | ⟨rfl, mode, held⟩
    · refine .inr ⟨id, p, rfl, found, isOpen, earned rfl, ?_, ?_, performed⟩
      · exact lt_of_lt_of_le inside (min_le_left _ _)
      · rw [settled, update_self]
    · exact (idle rfl held mode).elim
  | @redeem issuer nonce tokenSig joiner proof expires _ proposals held mode =>
    exact .inl ⟨issuer, nonce, tokenSig, joiner, proof, expires, rfl, rfl, held, mode⟩

end steps

/-! ## Runs -/

section runs

variable {G : Governance} {id : String} {p : Proposal}

/-- The store before anything was proposed. -/
def genesis : StagedStore Key Value := .new fun _ => none

/-- Governance's records after a run of calls from genesis. -/
def after (G : Governance) (calls : List (Invocation GovMsg)) : Store :=
  (runCalls G.handle genesis calls).get

/-- The proposals a run passes, in order. -/
def passedIds (G : Governance) : StagedStore Key Value → List (Invocation GovMsg) → List String
  | _, [] => []
  | staged, call :: calls =>
    passedBy staged.get (call.settle G.handle staged).get call.msg ++
      passedIds G (call.settle G.handle staged) calls

variable (staged : StagedStore Key Value) (calls : List (Invocation GovMsg))
  (call : Invocation GovMsg)

/-- A call changes nothing or has an effect. -/
theorem settle_effect :
    call.settle G.handle staged = staged ∨
      ∃ emitted, Effect G call.ask call.env staged.get call.msg emitted
        (call.settle G.handle staged).get := by
  rcases Invocation.settle_cases G.handle staged call with same | ⟨out, accepted⟩
  · exact .inl same
  · obtain ⟨emitted, effect, -⟩ := handle_effect (Invocation.accepted_iff.mp accepted)
    exact .inr ⟨emitted, effect⟩

theorem settle_kept (found : proposal staged.get id = some p) :
    ∃ p', proposal (call.settle G.handle staged).get id = some p' ∧ Kept p p' := by
  rcases settle_effect staged call with same | ⟨emitted, effect⟩
  · exact ⟨p, by rw [same, found], .refl p⟩
  · exact effect.kept found

/-- A run keeps every record. -/
theorem run_kept (found : proposal staged.get id = some p) :
    ∃ p', proposal (runCalls G.handle staged calls).get id = some p' ∧ Kept p p' := by
  induction calls generalizing staged p with
  | nil => exact ⟨p, found, .refl p⟩
  | cons call calls ih =>
    obtain ⟨p', found', kept⟩ := settle_kept staged call found
    obtain ⟨p'', found'', kept'⟩ := ih _ found'
    exact ⟨p'', found'', kept.trans kept'⟩

theorem run_seated (G : Governance) (calls : List (Invocation GovMsg)) : Seated (after G calls) := by
  have start : Seated genesis.get := fun _ _ _ found => nomatch found
  refine runCalls_invariant (P := fun staged => Seated staged.get) calls ?_ start
  intro call _ staged staged' out seated accepted
  obtain ⟨emitted, effect, -⟩ := handle_effect (Invocation.accepted_iff.mp accepted)
  exact effect.seated seated

/-- The call that made a record, and the record it made. -/
structure Provenance (G : Governance) (calls : List (Invocation GovMsg)) (id : String) (p : Proposal)
    (before : List (Invocation GovMsg)) (call : Invocation GovMsg) (p₀ : Proposal) : Prop where
  /-- The call is one of the run's. -/
  split : ∃ rest, calls = before ++ call :: rest
  fresh : proposal (after G before) id = none
  made : proposal (after G (before ++ [call])) id = some p₀
  /-- It recorded the proposed action and froze the electorate of that moment. -/
  proposed : ∃ action period submitter, call.msg = .propose id action period ∧
    call.env.origin = .external submitter ∧
    Freezes G call.ask (after G before) submitter action p₀.proposer p₀.electorate ∧
    p₀.action = recordedAs action ∧ p₀.status = .open ∧ p₀.votes = ∅ ∧ p₀.createdAt = call.env.consensusTime ∧
    p₀.deadline = call.env.consensusTime + period
  kept : Kept p₀ p

/-- Every record of a run was made by one of its proposals. -/
theorem run_origin (G : Governance) (calls : List (Invocation GovMsg))
    (found : proposal (after G calls) id = some p) :
    ∃ before call p₀, Provenance G calls id p before call p₀ := by
  induction calls using reverseRecOn generalizing p with
  | nil => cases found
  | append_singleton calls call ih =>
    cases stored : proposal (after G calls) id with
    | some q =>
      obtain ⟨before, made, p₀, origin⟩ := ih stored
      obtain ⟨rest, split⟩ := origin.split
      have kept : Kept q p := by
        unfold after at found
        rw [runCalls_append] at found
        obtain ⟨p', found', kept⟩ := run_kept _ [call] stored
        rw [found', some_inj] at found
        exact found ▸ kept
      exact ⟨before, made, p₀, ⟨rest ++ [call], by simp [split]⟩, origin.fresh, origin.made,
        origin.proposed, origin.kept.trans kept⟩
    | none =>
      refine ⟨calls, call, p, ⟨[], rfl⟩, stored, found, ?_, .refl p⟩
      unfold after at found stored
      rw [runCalls_append, runCalls_cons, runCalls_nil] at found
      rcases settle_effect (runCalls G.handle genesis calls) call with
        same | ⟨emitted, effect⟩
      · rw [same, stored] at found
        cases found
      · exact effect.made stored found

/-- A settled proposal is not passed again. -/
theorem not_mem_passedIds {staged : StagedStore Key Value} (found : proposal staged.get id = some p)
    (closed : p.status ≠ .open) (calls : List (Invocation GovMsg)) : id ∉ passedIds G staged calls := by
  induction calls generalizing staged with
  | nil => exact not_mem_nil
  | cons call calls ih =>
    rw [passedIds, mem_append, not_or]
    obtain ⟨p', found', kept⟩ := settle_kept (G := G) staged call found
    obtain rfl := kept.settled closed
    refine ⟨fun passes => ?_, ih found'⟩
    have wasOpen := (mem_passedBy.mp passes).2.1
    rw [found, map_some, some_inj] at wasOpen
    exact closed wasOpen

/-- No proposal is passed twice. -/
theorem passedIds_nodup : (passedIds G staged calls).Nodup := by
  induction calls generalizing staged with
  | nil => exact nodup_nil
  | cons call calls ih =>
    refine nodup_append.mpr ⟨passedBy_nodup .., ih _, ?_⟩
    rintro id passes _ again rfl
    obtain ⟨-, -, passed⟩ := mem_passedBy.mp passes
    obtain ⟨p, found, status⟩ := map_eq_some_iff.mp passed
    exact not_mem_passedIds found (by simp [status]) calls again

/-- Over every run of governance operations, whatever the siblings answer in between:

* an accepted call that hands the host a message or writes the share records is an invite's
  redemption, or passes one open proposal: its frozen rule is met by the ballots of its frozen
  electorate, its execution window is not over, and what it sends or writes is what its action says;
* every record was made by one proposal, with its action and the electorate frozen then, and keeps its terms
  since;
* every ballot belongs to a principal of the frozen electorate;
* later calls keep every record's terms, and a settled record whole;
* no proposal is passed twice. -/
theorem frozen_rule (G : Governance) (calls : List (Invocation GovMsg)) :
    (∀ (call : Invocation GovMsg) staged out,
      call.accepted G.handle (runCalls G.handle genesis calls) = some (staged, out) →
      Performs (after G calls) staged.get out.emitted →
      (∃ issuer nonce tokenSig joiner proof expires,
        call.msg = .redeem issuer nonce tokenSig joiner proof expires ∧
          out.emitted = [⟨G.valsetId, G.govWire.valsetMsg.encode (.grant joiner)⟩] ∧
          shares staged.get = shares (after G calls) ∧
          shareMode staged.get = shareMode (after G calls)) ∨
        ∃ id p, call.msg = .execute id ∧ proposal (after G calls) id = some p ∧
          p.status = .open ∧ Met p.electorate.rule (p.power true) (p.power false) ∧
          call.env.consensusTime < p.deadline + executionGrace ∧
          proposal staged.get id = some { p with status := .passed } ∧
          Enacted G call.env (shareMode (after G calls)) (shares (after G calls)) p.action .passed out.emitted
            (shareMode staged.get) (shares staged.get)) ∧
      (∀ id p, proposal (after G calls) id = some p →
        ∃ before call p₀, Provenance G calls id p before call p₀) ∧
      Seated (after G calls) ∧
      (∀ later id p, proposal (after G calls) id = some p →
        ∃ p', proposal (after G (calls ++ later)) id = some p' ∧ Kept p p') ∧
      (passedIds G genesis calls).Nodup := by
  refine ⟨fun call staged out accepted performs => ?_, fun id p => run_origin G calls,
    run_seated G calls, fun later id p found => ?_, passedIds_nodup genesis calls⟩
  · obtain ⟨emitted, effect, emits⟩ := handle_effect (Invocation.accepted_iff.mp accepted)
    obtain rfl : out.emitted = emitted := emits
    exact effect.performs performs
  · unfold after
    rw [runCalls_append]
    exact run_kept _ later found

end runs

end Ducktape.Governance
