import Mathlib.Data.List.Perm.Subperm
import Mathlib.Data.String.Basic
import Ducktape.Lib.Borsh
import Ducktape.Lib.SortedSet
import Ducktape.Modules.GovernanceAcl
import Ducktape.Modules.GovernanceSound

/-! # The roster of open proposals

`Tidy` says that the roster is sorted and lists exactly the open proposals, within its caps, and that every
record, without its ballots, fits half its cap. Reaping is exact (`reapExpired_exact`), so every operation
keeps it (`handle_tidy`). In the stored layout a ballot is no larger than its entry of the electorate, so a
record fits its cap with any ballots (`Layout.fits`).

`roster_never_wedges`: in every run the reaper that every operation starts with succeeds. -/

namespace Ducktape.Governance

open Lib Handler Borsh Function Std List StagedStore Proposal

/-! ## Records as they are stored -/

def statusTag : ProposalStatus → UInt8
  | .open => 0
  | .passed => 1
  | .rejected => 2

def kindTag : VoterKind → UInt8
  | .validatorNode => 0
  | .account => 1

def ruleBytes : VotingRule → Bytes
  | .threshold requiredYes => 0 :: le 8 requiredYes
  | .participatingMajority quorum => 1 :: le 8 quorum

/-- A ballot map's entry. -/
def ballotBytes (entry : Bytes × Bool) : Bytes := Format.bytes.write entry.1 ++ [if entry.2 then 1 else 0]

/-- An electorate's entry. -/
def powerBytes (entry : Bytes × Nat) : Bytes := Format.bytes.write entry.1 ++ le 8 entry.2

/-- The borsh encoding of a proposal, over that of its action: fields in order, maps by key under a count. -/
def recordBytes (actionBytes : GovAction → Bytes) (p : Proposal) : Bytes :=
  actionBytes p.action ++ Format.bytes.write p.proposer ++ le 8 p.createdAt ++ le 8 p.deadline ++
    [statusTag p.status] ++ (le 4 p.votes.size ++ p.votes.toList.flatMap ballotBytes) ++
    [kindTag p.electorate.voterKind] ++
    (le 4 p.electorate.powers.size ++ p.electorate.powers.toList.flatMap powerBytes) ++ ruleBytes p.electorate.rule

/-- The record codec is borsh. -/
structure Layout (G : Governance) : Prop where
  proposal : ∃ actionBytes, ∀ p, G.proposalBytes p = recordBytes actionBytes p
  roster : ∀ ids, G.rosterBytes ids = le 4 ids.length ++ ids.flatMap fun id => Format.bytes.write (utf8 id)

/-- The proposal as it was made: open and without ballots. -/
def Proposal.fresh (p : Proposal) : Proposal := { p with status := .open, votes := ∅ }

/-- What the ballots and the electorate take. -/
def ballotsSize (votes : ExtTreeMap Bytes Bool) : Nat := (votes.keys.map fun key => 5 + key.length).sum

def powersSize (powers : ExtTreeMap Bytes Nat) : Nat := (powers.keys.map fun key => 12 + key.length).sum

theorem length_flatMap_key {β : Type} {m : ExtTreeMap Bytes β} {write : Bytes × β → Bytes} {extra : Nat}
    (size : ∀ entry, (write entry).length = extra + entry.1.length) :
    (m.toList.flatMap write).length = (m.keys.map fun key => extra + key.length).sum := by
  rw [length_flatMap, ← ExtTreeMap.map_fst_toList_eq_keys, map_map]
  exact congrArg sum (map_congr_left fun entry _ => size entry)

theorem length_recordBytes (actionBytes : GovAction → Bytes) (p : Proposal) :
    (recordBytes actionBytes p).length = (actionBytes p.action).length + p.proposer.length +
      ballotsSize p.votes + powersSize p.electorate.powers + (ruleBytes p.electorate.rule).length + 30 := by
  have ballots : (p.votes.toList.flatMap ballotBytes).length = ballotsSize p.votes :=
    length_flatMap_key fun entry => by simp [ballotBytes]; omega
  have powers : (p.electorate.powers.toList.flatMap powerBytes).length = powersSize p.electorate.powers :=
    length_flatMap_key fun entry => by simp [powerBytes]; omega
  simp only [recordBytes, length_append, length_le, Format.length_bytes, length_singleton]
  omega

variable {votes : ExtTreeMap Bytes Bool}

/-- Ballots of the electorate take no more than the electorate. -/
theorem ballotsSize_le {powers : ExtTreeMap Bytes Nat} (seated : ∀ voter ∈ votes, voter ∈ powers) :
    ballotsSize votes ≤ powersSize powers := by
  have part : votes.keys.Subperm powers.keys := by
    refine subperm_of_subset ExtTreeMap.nodup_keys fun voter mem => ?_
    exact ExtTreeMap.mem_keys.mpr (seated voter (ExtTreeMap.mem_keys.mp mem))
  obtain ⟨keys, perm, sub⟩ := part
  calc ballotsSize votes = (keys.map fun key => 5 + key.length).sum := (perm.map _).sum_eq.symm
    _ ≤ (keys.map fun key => 12 + key.length).sum := sum_le_sum fun _ _ => by omega
    _ ≤ powersSize powers := (sub.map _).sum_le_sum fun _ _ => Nat.zero_le _

section layout

variable {G : Governance}

/-- **A record that was made within half the cap fits it with any ballots and any status.** -/
theorem Layout.fits (layout : Layout G) {p : Proposal}
    (made : (G.proposalBytes p.fresh).length ≤ maxProposalRecordBytes / 2)
    (seated : ∀ voter ∈ votes, voter ∈ p.electorate.powers) (status : ProposalStatus) :
    (G.proposalBytes { p with votes := votes, status := status }).length ≤ maxProposalRecordBytes := by
  obtain ⟨actionBytes, proposal⟩ := layout.proposal
  have ballots := ballotsSize_le seated
  rw [proposal, length_recordBytes] at made ⊢
  simp only [fresh] at made ⊢
  omega

theorem Layout.sizes (layout : Layout G) : Sizes G where
  status p status := by
    obtain ⟨actionBytes, proposal⟩ := layout.proposal
    rw [proposal, proposal, length_recordBytes, length_recordBytes]
  narrower ids ids' part := by
    simp only [layout.roster, length_append, length_flatMap]
    exact Nat.add_le_add_left ((part.map _).sum_le_sum fun _ _ => Nat.zero_le _) 4
  empty := by simp [layout.roster, maxRosterRecordBytes]

end layout

/-! ## Reaping -/

/-- Is the proposal open past its execution window? -/
def expired (s : Store) (now : Nat) (id : String) : Bool :=
  (proposal s id).any fun p => p.status = .open ∧ now ≥ p.executionDeadline

/-- Was it the proposer's? -/
def proposedBy (s : Store) (proposer : Bytes) (id : String) : Bool := (proposal s id).any (·.proposer = proposer)

section reaping

variable {G : Governance} {ask : (q : Ask) → Answer q} {scratch after : Scratch Key Value}
  {result : Nat × List String} {s : Store} {id : String} {p : Proposal} {action : GovAction}
  {status : ProposalStatus}

variable {now : Nat}

/-- **The reaper evicts exactly the expired ids, rejects them, and counts the rest of the proposer's.** -/
theorem reapExpired_exact {proposer : Bytes} {ids : List String} (once : ids.Nodup)
    (ends : Ends ask (G.reapExpired now proposer ids) scratch result after) :
    result.2 = ids.filter (!expired scratch.staged.get now ·) ∧
      result.1 = result.2.countP (proposedBy scratch.staged.get proposer) ∧
      ∀ id, proposal after.staged.get id = if id ∈ ids ∧ expired scratch.staged.get now id then
        (proposal scratch.staged.get id).map fun p => { p with status := .rejected }
      else proposal scratch.staged.get id := by
  induction ids generalizing scratch result with
  | nil =>
    obtain ⟨rfl, rfl⟩ := ends_pure.mp ends
    exact ⟨rfl, rfl, fun _ => by simp⟩
  | cons id ids ih =>
    obtain ⟨unlisted, once⟩ := nodup_cons.mp once
    simp only [reapExpired, ends_bind, ends_require] at ends
    obtain ⟨_, _, ⟨rfl, rfl⟩, p, _, ⟨found, rfl⟩, ends⟩ := ends
    split at ends
    · rename_i late
      have here : expired scratch.staged.get now id = true := by simpa [expired, found] using late
      simp only [ends_bind] at ends
      obtain ⟨_, m, stored, ends⟩ := ends
      have written : ∀ other, other ≠ id → proposal m.staged.get other = proposal scratch.staged.get other := by
        intro other apart
        rw [ends_storeBounded stored, get_stage, proposal_put_prop, update_of_ne apart]
      have apart : ∀ other ∈ ids, other ≠ id := fun other mem same => unlisted (same ▸ mem)
      obtain ⟨kept, count, proposals⟩ := ih once ends
      have same : ∀ other ∈ ids, expired m.staged.get now other = expired scratch.staged.get now other :=
        fun other mem => by rw [expired, written other (apart other mem), expired]
      refine ⟨?_, ?_, fun other => ?_⟩
      · rw [kept, filter_cons_of_neg (by simp [here])]
        exact filter_congr fun other mem => by rw [same other mem]
      · rw [count]
        refine countP_congr fun other mem => ?_
        rw [kept] at mem
        rw [proposedBy, written other (apart other (mem_filter.mp mem).1), proposedBy]
      · rw [proposals]
        by_cases is : other = id
        · subst is
          rw [if_neg fun both => unlisted both.1, if_pos ⟨mem_cons_self, here⟩, found, ends_storeBounded stored]
          simp
        · rw [written other is]
          by_cases mem : other ∈ ids
          · simp [mem, same other mem]
          · simp [mem, is]
    · rename_i inside
      have here : expired scratch.staged.get now id = false := by simpa [expired, found] using inside
      simp only [ends_bind] at ends
      obtain ⟨⟨count, kept⟩, _, rest, rfl, rfl⟩ := ends
      obtain ⟨left, counted, proposals⟩ := ih once rest
      refine ⟨by simpa [here] using left, ?_, fun other => ?_⟩
      · rw [countP_cons, ← counted]
        simp only [proposedBy, found, Option.any_some, decide_eq_true_eq]
      · rw [proposals]
        by_cases is : other = id
        · subst is
          simp [here]
        · simp [is]

/-! ## The invariant -/

/-- The roster is sorted, lists exactly the open proposals and keeps its caps; a record was made within half
its cap. -/
structure Tidy (G : Governance) (s : Store) : Prop where
  sorted : (roster s).Pairwise (· < ·)
  listed : ∀ id, id ∈ roster s ↔ ∃ p, proposal s id = some p ∧ p.status = .open
  capped : (roster s).length ≤ maxProposals
  fair : ∀ proposer, (roster s).countP (proposedBy s proposer) ≤ maxOpenProposalsPerSubmitter
  roomy : ∀ id p, proposal s id = some p → (G.proposalBytes p.fresh).length ≤ maxProposalRecordBytes / 2

theorem Tidy.once (tidy : Tidy G s) : (roster s).Nodup :=
  tidy.sorted.imp fun {_ _} below => below.ne

variable {s' : Store}

/-- Settling and voting keep it: fewer ids are listed, and records stay as they were made. -/
theorem Tidy.narrow (tidy : Tidy G s) (part : (roster s').Sublist (roster s))
    (listed : ∀ id, id ∈ roster s' ↔ ∃ p, proposal s' id = some p ∧ p.status = .open)
    (same : ∀ id, (proposal s' id).map fresh = (proposal s id).map fresh) : Tidy G s' where
  sorted := tidy.sorted.sublist part
  listed := listed
  capped := part.length_le.trans tidy.capped
  fair proposer := by
    have proposers : ∀ id, proposedBy s' proposer id = proposedBy s proposer id := by
      intro id
      have proposer := congrArg (Option.any fun p : Proposal => p.proposer = proposer) (same id)
      rwa [Option.any_map, Option.any_map] at proposer
    rw [show proposedBy s' proposer = proposedBy s proposer from funext proposers]
    exact part.countP_le.trans (tidy.fair proposer)
  roomy id p found := by
    have made := same id
    rw [found, Option.map_some, eq_comm, Option.map_eq_some_iff] at made
    obtain ⟨q, was, fresh⟩ := made
    rw [← fresh]
    exact tidy.roomy id q was

/-- The roster the reaper leaves, over the records it leaves. -/
theorem Tidy.reaped {proposer : Bytes} (tidy : Tidy G scratch.staged.get)
    (ends : Ends ask (G.reapExpired now proposer (roster scratch.staged.get)) scratch result after)
    :
    Tidy G (put after.staged.get .proposals result.2) ∧
      result.1 = result.2.countP (proposedBy (put after.staged.get .proposals result.2) proposer) := by
  obtain ⟨kept, count, proposals⟩ := reapExpired_exact tidy.once ends
  have same : ∀ id, (proposal (put after.staged.get .proposals result.2) id).map fresh =
      (proposal scratch.staged.get id).map fresh := by
    intro id
    rw [proposal_put _ _ (by simp), proposals]
    split
    · rw [Option.map_map]
      rfl
    · rfl
  refine ⟨tidy.narrow (by simp [kept]) (fun id => ?_) same, ?_⟩
  · rw [roster_put_proposals, kept, mem_filter, tidy.listed, proposal_put _ _ (by simp), proposals]
    cases found : proposal scratch.staged.get id with
    | none => simp
    | some p =>
      by_cases late : expired scratch.staged.get now id = true
      · have isOpen : p.status = .open := (by simpa [expired, found] using late : _ ∧ _).1
        have listed := (tidy.listed id).mpr ⟨p, found, isOpen⟩
        simp [late, listed]
      · simp [late]
  · rw [count]
    refine countP_congr fun id _ => ?_
    have proposer := congrArg (Option.any fun p : Proposal => p.proposer = proposer) (same id)
    rw [Option.any_map, Option.any_map] at proposer
    exact iff_of_eq (congrArg (· = true) proposer.symm)

/-! ## Operations keep it -/

variable {env : Env}

/-- A proposal made within the caps. -/
theorem Tidy.grow (tidy : Tidy G s) (absent : proposal s id = none) (isOpen : p.status = .open)
    (room : (roster s).length < maxProposals)
    (few : (roster s).countP (proposedBy s p.proposer) < maxOpenProposalsPerSubmitter)
    (half : (G.proposalBytes p.fresh).length ≤ maxProposalRecordBytes / 2)
    (made : proposal s' = update (proposal s) id (some p))
    (ids : roster s' = insertSorted id (roster s)) : Tidy G s' := by
  have perm : (roster s').Perm (id :: roster s) := by
    rw [ids]
    refine perm_middle.trans ?_
    rw [takeWhile_append_dropWhile]
  have unlisted : id ∉ roster s := by
    rw [tidy.listed]
    rintro ⟨p, found, -⟩
    cases absent.symm.trans found
  have found : ∀ other, proposal s' other = if other = id then some p else proposal s other := by
    intro other
    rw [made, update_apply]
  refine ⟨?_, fun other => ?_, ?_, fun proposer => ?_, fun other q is => ?_⟩
  · rw [ids]
    exact sorted_insertWhile (fun _ => decide_eq_true_iff) tidy.sorted unlisted
  · rw [perm.mem_iff, mem_cons, found, tidy.listed]
    by_cases same : other = id
    · simp [same, isOpen]
    · simp [same]
  · rw [perm.length_eq, length_cons]
    omega
  · rw [perm.countP_eq, countP_cons]
    have others : (roster s).countP (proposedBy s' proposer) = (roster s).countP (proposedBy s proposer) := by
      refine countP_congr fun other mem => ?_
      have apart : other ≠ id := fun same => unlisted (same ▸ mem)
      rw [proposedBy, found, if_neg apart, proposedBy]
    rw [others, proposedBy, found, if_pos rfl]
    have before := tidy.fair proposer
    split
    · rename_i own
      rw [← of_decide_eq_true own]
      omega
    · omega
  · rw [found] at is
    split at is
    · cases is
      exact half
    · exact tidy.roomy other q is

/-- A record changed in its ballots, or settled and evicted. -/
theorem Tidy.rewrite {q : Proposal} (tidy : Tidy G s) (was : proposal s id = some p)
    (fresh : q.fresh = p.fresh) (made : proposal s' = update (proposal s) id (some q))
    (ids : roster s' = if q.status = .open then roster s else (roster s).erase id)
    (status : q.status = .open → p.status = .open) : Tidy G s' := by
  refine tidy.narrow ?_ (fun other => ?_) fun other => ?_
  · rw [ids]
    split
    · exact .refl _
    · exact erase_sublist
  · rw [made, ids]
    by_cases same : other = id
    · subst same
      rw [update_self]
      split
      · rename_i isOpen
        rw [tidy.listed]
        exact iff_of_true ⟨p, was, status isOpen⟩ ⟨q, rfl, isOpen⟩
      · rename_i settled
        simp [tidy.once.mem_erase_iff, settled]
    · rw [update_of_ne same, ← tidy.listed]
      split
      · rfl
      · rw [tidy.once.mem_erase_iff]
        exact and_iff_right same
  · rw [made]
    by_cases same : other = id
    · rw [same, update_self, was, Option.map_some, fresh, Option.map_some]
    · rw [update_of_ne same]

section

variable (tidy : Tidy G scratch.staged.get)
include tidy

theorem reapRoster_tidy (ends : Ends ask (G.reapRoster now) scratch () after) :
    Tidy G after.staged.get := by
  simp only [reapRoster, ends_bind] at ends
  obtain ⟨_, _, ⟨rfl, rfl⟩, _, m, reaps, rosters⟩ := ends
  rw [ends_stageRoster rosters, get_stage]
  exact (tidy.reaped reaps).1

theorem settle_tidy {q : Proposal} (was : proposal scratch.staged.get id = some p)
    (fresh : q.fresh = p.fresh) (settled : q.status ≠ .open)
    (ends : Ends ask (G.settle id q) scratch () after) : Tidy G after.staged.get := by
  obtain ⟨made, ids, -⟩ := ends_settle ends
  exact tidy.rewrite was fresh made (by rw [if_neg settled, ids]) fun isOpen => absurd isOpen settled

theorem propose_tidy {period : Nat}
    (ends : Ends ask (G.handlePropose env id action period) scratch () after) :
    Tidy G after.staged.get := by
  obtain ⟨submitter, proposer, electorate, recorded, ⟨count, ids⟩, m, proposing⟩ := ends_handlePropose ends
  obtain ⟨reaped, -⟩ := ends_reapExpired proposing.reaps
  obtain ⟨kept, counted⟩ := tidy.reaped proposing.reaps
  have absent : proposal (put m.staged.get .proposals ids) id = none := by
    rw [proposal_put _ _ (by simp), reaped.none_iff]
    exact proposing.fresh
  have few : (roster (put m.staged.get .proposals ids)).countP (proposedBy (put m.staged.get .proposals ids) proposer) <
      maxOpenProposalsPerSubmitter := by
    rw [roster_put_proposals, ← counted]
    exact proposing.few
  rw [proposing.written]
  exact kept.grow (p := ⟨recorded, proposer, env.consensusTime, env.consensusTime + period, .open, ∅, electorate⟩)
    absent rfl proposing.room few proposing.half (by simp) (by simp)

theorem vote_tidy {approve : Bool} (ends : Ends ask (G.handleVote env id approve) scratch () after) :
    Tidy G after.staged.get := by
  obtain ⟨m, p, voter, reaps, found, isOpen, -, -, -, rfl⟩ := ends_handleVote ends
  rw [get_stage]
  exact (reapRoster_tidy tidy reaps).rewrite (q := { p with votes := p.votes.insert voter approve }) found rfl
    (proposal_put_prop _ _ _) (by simp [isOpen]) fun _ => isOpen

end

theorem Enacted.settles {env : Env} {mode mode' : Bool} {held held' : Option Shares} {emitted : List Msg}
    (performed : Enacted G env mode held action status emitted mode' held') : status ≠ .open := by
  cases performed <;> nofun

theorem execute_tidy (tidy : Tidy G scratch.staged.get)
    (ends : Ends ask (G.handleExecute env id) scratch () after) : Tidy G after.staged.get := by
  obtain ⟨p, found, -, ⟨-, ends⟩ | ⟨inside, m, status, t, reaps, ⟨⟨_, performed, proposals, -⟩, writes⟩, -, settles⟩⟩ :=
    ends_handleExecute ends
  · exact settle_tidy (q := { p with status := .rejected }) tidy found rfl nofun ends
  have kept := reapRoster_tidy tidy reaps
  have ids := writes.roster_eq
  have concluded : Tidy G t.staged.get :=
    kept.narrow (by rw [ids]) (by rw [ids, proposals]; exact kept.listed) fun id => by rw [proposals]
  have held : proposal t.staged.get id = some p := by
    rw [proposals, (ends_reapRoster reaps).1.survives found inside]
  exact settle_tidy (q := { p with status := status }) concluded held rfl performed.settles settles

theorem handle_tidy {msg : GovMsg} (tidy : Tidy G scratch.staged.get)
    (ends : Ends ask (G.handle env msg) scratch () after) : Tidy G after.staged.get := by
  cases msg with
  | propose => exact propose_tidy tidy ends
  | vote => exact vote_tidy tidy ends
  | execute => exact execute_tidy tidy ends
  | redeem =>
    rw [ends_handleRedeem ends]
    exact tidy.narrow (by simp) tidy.listed (by simp)

end reaping

/-! ## Runs -/

/-- **Governance never wedges.** In every run the roster is sorted, lists exactly the open proposals and keeps
its caps, every record fits its cap with any ballots of its electorate and any status, and the reaper
succeeds, at any time and for any proposer. -/
theorem roster_never_wedges {G : Governance} (layout : Layout G) (calls : List (Invocation GovMsg)) :
    let staged := runCalls G.handle (.new fun _ => none) calls
    Tidy G staged.get ∧
      (∀ id p votes status, proposal staged.get id = some p → (∀ voter ∈ votes, voter ∈ p.electorate.powers) →
        (G.proposalBytes { p with votes := votes, status := status }).length ≤ maxProposalRecordBytes) ∧
      ∀ (ask : (q : Ask) → Answer q) (now : Nat) (proposer : Bytes) (out : Outputs),
        (∃ after, Ends ask (G.reapRoster now) ⟨staged, out⟩ () after) ∧
          ∃ result after, Ends ask (G.reapExpired now proposer (roster staged.get)) ⟨staged, out⟩ result after := by
  intro staged
  have start : Sound G (StagedStore.new fun _ => none : StagedStore Key Value).get ∧
      Tidy G (StagedStore.new fun _ => none : StagedStore Key Value).get := by
    refine ⟨sound_empty layout.sizes, List.Pairwise.nil, fun id => iff_of_false nofun ?_, Nat.zero_le _,
      fun _ => Nat.zero_le _, nofun⟩
    rintro ⟨p, found, -⟩
    cases found
  obtain ⟨sound, tidy⟩ : Sound G staged.get ∧ Tidy G staged.get := by
    refine runCalls_invariant (P := fun staged => Sound G staged.get ∧ Tidy G staged.get) calls ?_ start
    intro call _ staged staged' out before accepted
    have ends := Invocation.accepted_iff.mp accepted
    exact ⟨handle_sound layout.sizes before.1 ends, handle_tidy before.2 ends⟩
  refine ⟨tidy, fun id p votes status found seated => layout.fits (tidy.roomy id p found) seated status, ?_⟩
  intro ask now proposer out
  exact ⟨reapRoster_ends layout.sizes sound, reapExpired_ends layout.sizes sound.record sound.listed⟩

/-- Borsh of a signal; the runs below propose nothing else. -/
def signalBytes : GovAction → Bytes
  | .signal text => 2 :: Format.bytes.write (utf8 text)
  | _ => []

/-- A network of one validator, with records in borsh. -/
def borshSolo : Governance :=
  { solo with
    proposalBytes := recordBytes signalBytes
    rosterBytes := fun ids => le 4 ids.length ++ ids.flatMap fun id => Format.bytes.write (utf8 id) }

/-- A proposal is made and voted on; it has expired by the time the next one is made. -/
def expiringCalls : List (Invocation GovMsg) :=
  let late := soloCall (.propose "a" (.signal "raise the cap") 5)
  [soloCall (.propose "b" (.signal "go") 5), soloCall (.vote "b" true),
    { late with env := { late.env with consensusTime := 200000 } }]

theorem roster_never_wedges_expiring :
    roster (runCalls borshSolo.handle (.new fun _ => none) expiringCalls).get = ["a"] ∧
      Tidy borshSolo (runCalls borshSolo.handle (.new fun _ => none) expiringCalls).get := by
  have layout : Layout borshSolo := ⟨⟨signalBytes, fun _ => rfl⟩, fun _ => rfl⟩
  have run := roster_never_wedges layout expiringCalls
  exact ⟨by decide +kernel, run.1⟩

end Ducktape.Governance
