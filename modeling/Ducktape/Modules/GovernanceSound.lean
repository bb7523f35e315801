import Ducktape.Lib.Weight
import Ducktape.Modules.GovernanceSteps

/-! # Governance never gets stuck on its own records

`Sound` is what governance's store always holds: every listed proposal has a record, every record and
the roster fit their caps, every frozen electorate can be totalled. Every accepted operation keeps it
(`handle_sound`), so executing a decided proposal inside its window is refused only where performing its
action is (`handleExecute_ends`). -/

namespace Ducktape.Governance

open Lib Handler Function Std ExtTreeMap Option StagedStore Handler.Reads

/-! ## Totals -/

/-- The powers can be totalled. -/
def Totals (powers : List Nat) : Prop := 0 < powers.sum ∧ powers.sum ≤ maxSafeShares

theorem foldl_power (powers : List Nat) {start : Nat} (small : start ≤ u64Max) :
    powers.foldl (fun sum power => sum.bind fun sum =>
      if sum + power ≤ u64Max then some (sum + power) else none) (some start)
      = if start + powers.sum ≤ u64Max then some (start + powers.sum) else none := by
  have overflown : ∀ powers : List Nat, powers.foldl (fun sum power => sum.bind fun sum =>
      if sum + power ≤ u64Max then some (sum + power) else none) none = none := by
    intro powers
    induction powers with
    | nil => rfl
    | cons power powers ih => exact ih
  induction powers generalizing start with
  | nil => simp [small]
  | cons power powers ih =>
    rw [List.foldl_cons, List.sum_cons, bind_some]
    by_cases fits : start + power ≤ u64Max
    · rw [if_pos fits, ih fits, Nat.add_assoc]
    · rw [if_neg fits, overflown, if_neg (by omega)]

theorem totalPower_eq_ok {powers : List Nat} {total : Nat} :
    totalPower powers = .ok total ↔ Totals powers ∧ total = powers.sum := by
  have safe : maxSafeShares ≤ u64Max := by decide
  unfold totalPower Totals
  rw [foldl_power powers (Nat.zero_le _), Nat.zero_add]
  by_cases fits : powers.sum ≤ u64Max
  · rw [if_pos fits]
    by_cases bad : powers.sum = 0 ∨ powers.sum > maxSafeShares
    · simp only [bad, if_true, reduceCtorEq, false_iff]
      omega
    simp only [bad, if_false, Except.ok.injEq]
    constructor
    · rintro rfl
      exact ⟨by omega, rfl⟩
    · rintro ⟨-, rfl⟩
      rfl
  · simp only [if_neg fits, reduceCtorEq, false_iff]
    omega

/-! ## The invariant -/

/-- Every account in the registry holds shares. -/
def Positive (held : Shares) : Prop := ∀ (number : AccountNumber) (amount : Nat),
  held[number]? = some amount → 0 < amount

/-- A proposal as it may be stored. -/
structure RecordSound (G : Governance) (p : Proposal) : Prop where
  fits : (G.proposalBytes p).length ≤ maxProposalRecordBytes
  totals : Totals p.electorate.powers.values
  adopts : ∀ allocations, p.action = .adoptShares allocations → ∀ a ∈ allocations, 0 < a.shares

/-- What the store always holds. -/
structure Sound (G : Governance) (s : Store) : Prop where
  record : ∀ id p, proposal s id = some p → RecordSound G p
  listed : ∀ id ∈ roster s, ∃ p, proposal s id = some p
  fits : (G.rosterBytes (roster s)).length ≤ maxRosterRecordBytes
  positive : ∀ held, shares s = some held → Positive held

/-- What the record codec is known to do: a status is one tag byte, and a roster's bytes grow with its
ids. -/
structure Sizes (G : Governance) : Prop where
  status : ∀ (p : Proposal) (status : ProposalStatus),
    (G.proposalBytes { p with status := status }).length = (G.proposalBytes p).length
  narrower : ∀ ids ids' : List String, ids.Sublist ids' →
    (G.rosterBytes ids).length ≤ (G.rosterBytes ids').length
  empty : (G.rosterBytes []).length ≤ maxRosterRecordBytes

variable {now : Nat}

section sound

variable {G : Governance} {s s' : Store} {p : Proposal} {id : String}

theorem RecordSound.settled (sizes : Sizes G) (sound : RecordSound G p) (status : ProposalStatus) :
    RecordSound G { p with status := status } :=
  ⟨by rw [sizes.status]; exact sound.fits, sound.totals, sound.adopts⟩

/-- Before the first block. -/
theorem sound_empty (sizes : Sizes G) : Sound G fun _ => none where
  record _ _ found := by cases found
  listed _ mem := by cases mem
  fits := sizes.empty
  positive _ found := by cases found

theorem Reaped.record (sizes : Sizes G) (reaped : Reaped now s s')
    (sound : ∀ id p, proposal s id = some p → RecordSound G p) :
    ∀ id p, proposal s' id = some p → RecordSound G p := by
  intro id p found
  rcases reaped.proposals id with same | ⟨q, before, -, -, rejected⟩
  · exact sound id p (same ▸ found)
  · rw [rejected, some_inj] at found
    rw [← found]
    exact (sound id q before).settled sizes .rejected

theorem Reaped.listed (reaped : Reaped now s s') (listed : ∃ p, proposal s id = some p) :
    ∃ p, proposal s' id = some p := by
  rw [← ne_none_iff_exists'] at listed ⊢
  exact fun missing => listed ((reaped.none_iff id).mp missing)

/-- A sound store stays sound when sound records are put and the roster is narrowed. -/
theorem Sound.narrow (sizes : Sizes G) (sound : Sound G s) (held : shares s' = shares s)
    (record : ∀ id p, proposal s' id = some p → RecordSound G p)
    (kept : ∀ id, (∃ p, proposal s id = some p) → ∃ p, proposal s' id = some p)
    (narrower : (roster s').Sublist (roster s)) : Sound G s' where
  record := record
  listed id mem := kept id (sound.listed id (narrower.subset mem))
  fits := (sizes.narrower _ _ narrower).trans sound.fits
  positive := by
    rw [held]
    exact sound.positive

theorem record_update (sound : ∀ id p, proposal s id = some p → RecordSound G p) (put : RecordSound G p)
    (made : proposal s' = update (proposal s) id (some p)) :
    ∀ other q, proposal s' other = some q → RecordSound G q := by
  intro other q found
  rw [made] at found
  by_cases same : other = id
  · subst same
    rw [update_self, some_inj] at found
    rwa [← found]
  · rw [update_of_ne same] at found
    exact sound other q found

theorem listed_update (made : proposal s' = update (proposal s) id (some p)) (other : String)
    (listed : ∃ p, proposal s other = some p) : ∃ p, proposal s' other = some p := by
  rw [made]
  by_cases same : other = id
  · exact ⟨p, by rw [same, update_self]⟩
  · rwa [update_of_ne same]

end sound

/-! ## Operations keep it -/

variable {ids : List String}

section handlers

variable {G : Governance} {ask : (q : Ask) → Answer q} {env : Env}
  {scratch after : Scratch Key Value} {id : String} {action : GovAction}
  {allocations : List ShareAllocation}

theorem reapRoster_sound (sizes : Sizes G) (sound : Sound G scratch.staged.get)
    (ends : Ends ask (G.reapRoster now) scratch () after) : Sound G after.staged.get := by
  obtain ⟨reaped, -, part⟩ := ends_reapRoster ends
  exact sound.narrow sizes reaped.shares (reaped.record sizes sound.record) (fun _ => reaped.listed) part

theorem settle_sound (sizes : Sizes G) {p : Proposal} (sound : Sound G scratch.staged.get)
    (settled : RecordSound G p) (ends : Ends ask (G.settle id p) scratch () after) :
    Sound G after.staged.get := by
  obtain ⟨made, ids, held, -, -⟩ := ends_settle ends
  exact sound.narrow sizes held (record_update sound.record settled made) (listed_update made)
    (ids ▸ List.erase_sublist)

theorem Positive.insert {held : Shares} (positive : Positive held) (number : AccountNumber) {amount : Nat}
    (some : 0 < amount) : Positive (held.insert number amount) := by
  intro other value found
  rw [getElem?_insert] at found
  split at found
  · exact Option.some.inj found ▸ some
  · exact positive other value found

theorem Positive.withShares {held : Shares} (positive : Positive held) (number : AccountNumber)
    (amount : Nat) : Positive (withShares held number amount) := by
  unfold Governance.withShares
  split
  · intro other value found
    rw [getElem?_erase] at found
    split at found
    · cases found
    · exact positive other value found
  · exact positive.insert number (by omega)

/-- The electorate a proposal freezes can be totalled. -/
theorem frozenElectorate_totals {submitter proposer : Bytes} {electorate : Electorate}
    (positive : ∀ held, shares scratch.staged.get = some held → Positive held)
    (ends : Ends ask (G.frozenElectorate submitter action) scratch (proposer, electorate) after) :
    Totals electorate.powers.values := by
  simp only [frozenElectorate, ends_bind] at ends
  obtain ⟨_, _, ⟨rfl, rfl⟩, ends⟩ := ends
  split at ends
  · simp only [ends_bind, ends_require, ends_refuseIf, ends_ofExcept] at ends
    obtain ⟨held, _, ⟨configured, rfl⟩, number, _, -, _, _, ⟨holds, rfl⟩, total, _, ⟨totalled, rfl⟩,
      ⟨-, rfl⟩, -⟩ := ends
    obtain ⟨⟨-, safe⟩, -⟩ := totalPower_eq_ok.mp totalled
    have collected : ∀ entry ∈ held.toList.map fun entry => (accountPrincipal entry.1, entry.2),
        0 < entry.2 := by
      rintro _ mem
      obtain ⟨⟨n, power⟩, listed, rfl⟩ := List.mem_map.mp mem
      exact positive held configured n power (mem_toList_iff_getElem?_eq_some.mp listed)
    rw [Totals, sum_values]
    constructor
    · -- the proposer's own entry, or the one that shares its principal, counts
      obtain ⟨amount, found⟩ : ∃ amount, held[number]? = some amount :=
        ⟨held.get number (by simpa using holds), by simp⟩
      have seated : accountPrincipal number ∈ ofList
          (held.toList.map fun entry => (accountPrincipal entry.1, entry.2)) := by
        rw [mem_ofList, List.contains_iff_mem]
        refine List.mem_map.mpr ⟨(accountPrincipal number, amount), ?_, rfl⟩
        exact List.mem_map.mpr ⟨(number, amount), mem_toList_iff_getElem?_eq_some.mpr found, rfl⟩
      have entry := getElem?_eq_some_getElem seated
      exact Nat.lt_of_lt_of_le (forall_ofList (P := fun _ power => 0 < power) collected entry)
        (le_weight (fun _ amount => amount) entry)
    · refine (weight_ofList_le _ _).trans ((Nat.le_of_eq ?_).trans safe)
      rw [values_eq_map_toList, List.map_map]
      rfl
  · simp only [ends_bind, ends_refuseIf, ends_ofExcept] at ends
    obtain ⟨_, _, -, _, _, ⟨-, rfl⟩, total, _, ⟨totalled, rfl⟩, ⟨-, rfl⟩, -⟩ := ends
    exact (totalPower_eq_ok.mp totalled).1

theorem normalizeAllocations_positive {normalized result : Shares} (positive : Positive normalized)
    (ends : Ends ask (G.normalizeAllocations allocations normalized) scratch result after) :
    Positive result := by
  induction allocations generalizing normalized scratch with
  | nil =>
    simp only [normalizeAllocations, ends_pure] at ends
    exact ends.1 ▸ positive
  | cons allocation rest ih =>
    simp only [normalizeAllocations, ends_bind, ends_refuseIf] at ends
    obtain ⟨_, _, ⟨some, rfl⟩, _, _, -, _, _, ⟨-, rfl⟩, ends⟩ := ends
    exact ih (positive.insert _ (by omega)) ends

/-- A recorded allocation gives every account shares. -/
theorem normalizeShareAction_adopts {recorded : GovAction}
    (ends : Ends ask (G.normalizeShareAction action) scratch recorded after)
    (adopts : recorded = .adoptShares allocations) : ∀ a ∈ allocations, 0 < a.shares := by
  subst adopts
  simp only [normalizeShareAction, ends_bind] at ends
  obtain ⟨_, _, ⟨rfl, rfl⟩, ends⟩ := ends
  split at ends
  · simp only [ends_bind, ends_refuseIf, ends_ofExcept] at ends
    obtain ⟨_, _, ⟨-, rfl⟩, _, _, ⟨-, rfl⟩, normalized, _, normalizes, _, _, ⟨-, rfl⟩, rfl, -⟩ := ends
    have positive := normalizeAllocations_positive (fun _ _ found => by simp at found) normalizes
    intro a mem
    obtain ⟨⟨n, amount⟩, listed, rfl⟩ := List.mem_map.mp mem
    exact positive n amount (mem_toList_iff_getElem?_eq_some.mp listed)
  · simp only [ends_bind, ends_pure, reduceCtorEq, false_and, and_false, exists_false] at ends
  · simp only [ends_bind, ends_pure, reduceCtorEq, false_and, and_false, exists_false] at ends
  · rename_i notAdopting _ _
    exact absurd (ends_pure.mp ends).1 (notAdopting allocations)

theorem mem_insertSorted {other : String} (mem : other ∈ insertSorted id ids) :
    other = id ∨ other ∈ ids := by
  rw [insertSorted, List.mem_append, List.mem_cons] at mem
  rcases mem with early | rfl | late
  · exact .inr ((List.takeWhile_sublist _).subset early)
  · exact .inl rfl
  · exact .inr ((List.dropWhile_sublist _).subset late)

theorem propose_sound (sizes : Sizes G) {period : Nat} (sound : Sound G scratch.staged.get)
    (ends : Ends ask (G.handlePropose env id action period) scratch () after) :
    Sound G after.staged.get := by
  obtain ⟨submitter, proposer, electorate, recorded, ⟨count, ids⟩, m, proposing⟩ := ends_handlePropose ends
  have totals := frozenElectorate_totals sound.positive proposing.froze
  have adopts : ∀ allocations, recorded = .adoptShares allocations → ∀ a ∈ allocations, 0 < a.shares :=
    fun _ => normalizeShareAction_adopts proposing.normalized
  obtain ⟨reaped, -, part⟩ := ends_reapExpired proposing.reaps
  have made : proposal after.staged.get = update (proposal m.staged.get) id (some
      ⟨recorded, proposer, env.consensusTime, env.consensusTime + period, .open, ∅, electorate⟩) := by
    simp [proposing.written]
  have ids : roster after.staged.get = insertSorted id ids := by simp [proposing.written]
  refine ⟨record_update (reaped.record sizes sound.record) ⟨proposing.half.trans (by decide), totals, adopts⟩ made,
    ?_, ids ▸ proposing.fits, ?_⟩
  · intro other mem
    rcases mem_insertSorted (ids ▸ mem) with rfl | old
    · exact ⟨_, by rw [made, update_self]⟩
    · exact listed_update made other (reaped.listed (sound.listed other (part.subset old)))
  · intro held found
    exact sound.positive held (by simpa [proposing.written, reaped.shares] using found)

theorem vote_sound (sizes : Sizes G) {approve : Bool} (sound : Sound G scratch.staged.get)
    (ends : Ends ask (G.handleVote env id approve) scratch () after) : Sound G after.staged.get := by
  obtain ⟨m, p, voter, reaps, found, -, -, -, fits, rfl⟩ := ends_handleVote ends
  have tidy := reapRoster_sound sizes sound reaps
  obtain ⟨-, totals, adopts⟩ := tidy.record id p found
  have cast : RecordSound G { p with votes := p.votes.insert voter approve } := ⟨fits, totals, adopts⟩
  have made := proposal_put_prop m.staged.get id { p with votes := p.votes.insert voter approve }
  rw [← get_stage] at made
  exact tidy.narrow sizes (by simp) (record_update tidy.record cast made) (listed_update made) (by simp)

/-- Performing an action writes no proposal and no roster, and leaves every shareholder some shares. -/
theorem Writes.sound {s s' : Store} (writes : Writes s action s') (sound : Sound G s)
    (adopts : ∀ allocations, action = .adoptShares allocations → ∀ a ∈ allocations, 0 < a.shares) : Sound G s' := by
  cases writes with
  | nothing => exact sound
  | adopts =>
    refine ⟨sound.record, sound.listed, sound.fits, ?_⟩
    intro held found number amount share
    simp only [shares_put, shares_put_shares, some_inj, ne_eq, reduceCtorEq, not_false_eq_true] at found
    subst found
    refine forall_ofList (P := fun _ amount => 0 < amount) (fun entry mem => ?_) share
    obtain ⟨a, listed, rfl⟩ := List.mem_map.mp mem
    exact adopts _ rfl a listed
  | sets configured =>
    refine ⟨sound.record, sound.listed, sound.fits, ?_⟩
    intro held found
    rw [shares_put_shares, some_inj] at found
    exact found ▸ (sound.positive _ configured).withShares _ _
  | mode =>
    exact ⟨sound.record, sound.listed, sound.fits,
      sound.positive⟩

theorem execute_sound (sizes : Sizes G) (sound : Sound G scratch.staged.get)
    (ends : Ends ask (G.handleExecute env id) scratch () after) : Sound G after.staged.get := by
  obtain ⟨p, found, -, ⟨-, ends⟩ | ⟨-, m, status, t, reaps, ⟨-, writes⟩, -, settles⟩⟩ := ends_handleExecute ends
  · exact settle_sound sizes sound ((sound.record id p found).settled sizes .rejected) ends
  · have record := sound.record id p found
    have performed := writes.sound (reapRoster_sound sizes sound reaps) record.adopts
    exact settle_sound sizes performed (record.settled sizes status) settles

/-- Every accepted operation keeps the store sound. -/
theorem handle_sound (sizes : Sizes G) {msg : GovMsg} (sound : Sound G scratch.staged.get)
    (ends : Ends ask (G.handle env msg) scratch () after) : Sound G after.staged.get := by
  cases msg with
  | propose => exact propose_sound sizes sound ends
  | vote => exact vote_sound sizes sound ends
  | execute => exact execute_sound sizes sound ends
  | redeem =>
    rw [ends_handleRedeem ends]
    exact ⟨sound.record, sound.listed, sound.fits,
      sound.positive⟩

end handlers

/-! ## Operations only stage

A `do` block is taken apart at its binds and branches; the leaves are the calls whose lemma is in the simp set. -/

section staging

variable {G : Governance} {env : Env}

attribute [local simp] reads_checkAction reads_frozenElectorate reads_normalizeShareAction reads_voterOf
  reads_members reads_residents reads_standsForPromotion emitValset

@[local simp] theorem stages_storeBounded (id : String) (p : Proposal) (cap : Nat) :
    Handler.Stages (G.storeBounded id p cap) :=
  .bind (by simp) fun _ => .stage _ _

@[local simp] theorem stages_stageRoster (ids : List String) : Handler.Stages (G.stageRoster ids) :=
  .bind (by simp) fun _ => .stage _ _

@[local simp] theorem stages_reapExpired (now : Nat) (proposer : Bytes) (ids : List String) :
    Handler.Stages (G.reapExpired now proposer ids) := by
  induction ids with
  | nil => exact .pure _
  | cons id ids ih => repeat' first | assumption | (simp; done) | split | refine .bind ?_ fun _ => ?_

@[local simp] theorem stages_reapRoster (now : Nat) : Handler.Stages (G.reapRoster now) := by
  repeat' first | (simp; done) | refine .bind ?_ fun _ => ?_

@[local simp] theorem stages_settle (id : String) (p : Proposal) : Handler.Stages (G.settle id p) := by
  repeat' first | simp | split | refine .bind ?_ fun _ => ?_

@[local simp] theorem stages_enact (action : GovAction) : Handler.Stages (G.enact env action) := by
  unfold enact emitModules
  split <;> repeat' first | (simp; done) | split | refine .bind ?_ fun _ => ?_ | dsimp only

@[local simp] theorem stages_conclude (action : GovAction) (passes : Bool) :
    Handler.Stages (G.conclude env action passes) := by
  unfold conclude
  split <;> simp

/-- Operations only stage; a block's boundary publishes. -/
theorem stages_handle (msg : GovMsg) : Handler.Stages (G.handle env msg) := by
  cases msg with
  | propose | vote | redeem => repeat' first | (simp; done) | refine .bind ?_ fun _ => ?_
  | execute =>
    refine .bind (by simp) fun _ => .bind (by simp) fun _ => .bind (by simp) fun _ => ?_
    dsimp only
    repeat' first | (simp; done) | split | refine .bind ?_ fun _ => ?_

end staging

/-! ## Executing is not refused -/

/-- The tally is in: the rule passes, and it may be said now. -/
def Decided (p : Proposal) (now : Nat) : Prop :=
  let decision := decideRule p.electorate.rule (p.power true) (p.power false) p.electorate.powers.values.sum
  decision.1 = true ∧ (p.deadline ≤ now ∨ decision.2 = true)

instance (p : Proposal) (now : Nat) : Decidable (Decided p now) := inferInstanceAs (Decidable (_ ∧ _))

section executing

variable {G : Governance} {ask : (q : Ask) → Answer q} {env : Env} {scratch : Scratch Key Value}
  {id : String} {p : Proposal}

theorem storeProposal_ends (fits : (G.proposalBytes p).length ≤ maxProposalRecordBytes) :
    ∃ after, Ends ask (G.storeProposal id p) scratch () after := by
  simp only [storeProposal, storeBounded, ends_bind, ends_refuseIf]
  exact ⟨_, (), _, ⟨by omega, rfl⟩, rfl⟩

theorem stageRoster_ends (fits : (G.rosterBytes ids).length ≤ maxRosterRecordBytes) :
    ∃ after, Ends ask (G.stageRoster ids) scratch () after := by
  simp only [stageRoster, ends_bind, ends_refuseIf]
  exact ⟨_, (), _, ⟨by omega, rfl⟩, rfl⟩

theorem reapExpired_ends (sizes : Sizes G) {proposer : Bytes}
    (record : ∀ id p, proposal scratch.staged.get id = some p → RecordSound G p)
    (listed : ∀ id ∈ ids, ∃ p, proposal scratch.staged.get id = some p) :
    ∃ result after, Ends ask (G.reapExpired now proposer ids) scratch result after := by
  induction ids generalizing scratch with
  | nil => exact ⟨_, _, ends_pure.mpr ⟨rfl, rfl⟩⟩
  | cons id ids ih =>
    obtain ⟨p, found⟩ := listed id List.mem_cons_self
    have rest : ∀ other ∈ ids, ∃ p, proposal scratch.staged.get other = some p :=
      fun other mem => listed other (List.mem_cons_of_mem _ mem)
    simp only [reapExpired, ends_bind, ends_view, ends_require]
    by_cases expired : p.status = .open ∧ now ≥ p.executionDeadline
    · have rejected := (record id p found).settled sizes .rejected
      obtain ⟨m, stored⟩ : ∃ m, Ends ask (G.storeProposal id { p with status := .rejected })
        scratch () m := storeProposal_ends rejected.fits
      have made := proposal_put_prop scratch.staged.get id { p with status := .rejected }
      rw [← get_stage] at made
      obtain rfl := ends_storeBounded stored
      obtain ⟨result, after, ends⟩ :=
        @ih { scratch with staged := scratch.staged.stage (.prop id) { p with status := .rejected } }
          (record_update record rejected made) fun other mem => listed_update made other (rest other mem)
      refine ⟨result, after, _, _, ⟨rfl, rfl⟩, p, _, ⟨found, rfl⟩, ?_⟩
      rw [if_pos expired]
      exact ends_bind.mpr ⟨_, _, stored, ends⟩
    · obtain ⟨result, after, ends⟩ := ih record rest
      refine ⟨(result.1 + if p.proposer = proposer then 1 else 0, id :: result.2), after, _, _,
        ⟨rfl, rfl⟩, p, _, ⟨found, rfl⟩, ?_⟩
      rw [if_neg expired]
      exact ends_bind.mpr ⟨_, _, ends, ends_pure.mpr ⟨rfl, rfl⟩⟩

theorem reapRoster_ends (sizes : Sizes G) (sound : Sound G scratch.staged.get) :
    ∃ after, Ends ask (G.reapRoster now) scratch () after := by
  obtain ⟨⟨count, kept⟩, m, reaps⟩ : ∃ result m, Ends ask
    (G.reapExpired now [] (roster scratch.staged.get)) scratch result m :=
    reapExpired_ends sizes sound.record sound.listed
  obtain ⟨-, -, part⟩ := ends_reapExpired reaps
  obtain ⟨after, rosters⟩ : ∃ after, Ends ask (G.stageRoster kept) m () after :=
    stageRoster_ends ((sizes.narrower _ _ part).trans sound.fits)
  simp only [reapRoster, ends_bind, ends_view]
  exact ⟨after, _, _, ⟨rfl, rfl⟩, _, m, reaps, rosters⟩

theorem settle_ends (sizes : Sizes G) (sound : Sound G scratch.staged.get)
    (fits : (G.proposalBytes p).length ≤ maxProposalRecordBytes) :
    ∃ after, Ends ask (G.settle id p) scratch () after := by
  obtain ⟨m, stored⟩ : ∃ m, Ends ask (G.storeProposal id p) scratch () m := storeProposal_ends fits
  have same : roster m.staged.get = roster scratch.staged.get := by simp [ends_storeBounded stored]
  simp only [settle, ends_bind, ends_view]
  by_cases listed : id ∈ roster m.staged.get
  · obtain ⟨after, rosters⟩ : ∃ after, Ends ask
        (G.stageRoster ((roster m.staged.get).erase id)) m () after :=
      stageRoster_ends ((sizes.narrower _ _ List.erase_sublist).trans (same ▸ sound.fits))
    refine ⟨after, _, m, stored, _, _, ⟨rfl, rfl⟩, ?_⟩
    rwa [if_pos listed]
  · refine ⟨m, _, m, stored, _, _, ⟨rfl, rfl⟩, ?_⟩
    rw [if_neg listed, ends_pure]
    exact ⟨rfl, rfl⟩

/-- A decided proposal inside its window is executed where its action can be performed by messages. -/
theorem handleExecute_ends (sizes : Sizes G) (sound : Sound G scratch.staged.get)
    (found : proposal scratch.staged.get id = some p) (isOpen : p.status = .open)
    (inside : env.consensusTime < p.executionDeadline) (decided : Decided p env.consensusTime)
    {status : ProposalStatus} {emitted : List Msg}
    (performs : ∀ m : Scratch Key Value, Ends ask (G.enact env p.action) m status
      { m with out := { m.out with emitted := m.out.emitted ++ emitted } }) :
    ∃ after, Ends ask (G.handleExecute env id) scratch () after ∧
      proposal after.staged.get id = some { p with status := status } ∧
      after.out.emitted = scratch.out.emitted ++ emitted := by
  have record := sound.record id p found
  obtain ⟨m, reaps⟩ : ∃ m, Ends ask (G.reapRoster env.consensusTime) scratch () m :=
    reapRoster_ends sizes sound
  obtain ⟨-, reapedOut, -⟩ := ends_reapRoster reaps
  have tidy := reapRoster_sound sizes sound reaps
  obtain ⟨after, settles⟩ : ∃ after, Ends ask (G.settle id { p with status := status })
      { m with out := { m.out with emitted := m.out.emitted ++ emitted } } () after :=
    settle_ends sizes tidy (record.settled sizes status).fits
  obtain ⟨settled, -, -, -, out⟩ := ends_settle settles
  have total : totalPower p.electorate.powers.values = .ok p.electorate.powers.values.sum :=
    totalPower_eq_ok.mpr ⟨record.totals, rfl⟩
  refine ⟨after, ?_, by rw [settled, update_self], by rw [out, reapedOut]⟩
  simp only [handleExecute, ends_bind, ends_view, ends_require, ends_refuseIf]
  refine ⟨_, _, ⟨rfl, rfl⟩, p, _, ⟨found, rfl⟩, (), _, ⟨not_not.mpr isOpen, rfl⟩, ?_⟩
  rw [if_neg (by omega)]
  simp only [ends_bind, ends_ofExcept, ends_refuseIf]
  refine ⟨(), m, reaps, _, _, ⟨total, rfl⟩, (), _, ⟨?_, rfl⟩, status, _, ?_, settles⟩
  · rintro ⟨early, undecided⟩
    rcases decided.2 with late | soon
    · omega
    · exact undecided soon
  · rw [conclude, if_pos decided.1]
    exact performs m

end executing

end Ducktape.Governance
