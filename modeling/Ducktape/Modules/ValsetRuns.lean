import Ducktape.Host.Isolation
import Ducktape.Modules.Valset

/-! # Runs of the validator set

`Reachable s history` are the states a genesis and any blocks of membership operations lead to, with the
tiers as committed at each generation. In all of them the tiers are sound and the retained snapshots are
those of the last generations (`reachable_keeps`); what a block commits depends on the membership it ends
with alone. -/

namespace Ducktape.Valset

open Lib Lib.Borsh Handler Format List Valset StagedStore Nat Except

/-! ## Tiers -/

/-- Both tiers. -/
structure Tiers where
  validators : List Bytes
  residents : List Bytes
  deriving DecidableEq

/-- A tier as it may be stored: strictly sorted keys, within the cap. -/
structure TierSound (tier : List Bytes) : Prop where
  sorted : tier.Pairwise (· < ·)
  capped : tier.length ≤ maxMembers
  width : ∀ key ∈ tier, key.length = keyLen

/-- Two sound tiers that share no key. -/
structure Tiers.Sound (tiers : Tiers) : Prop where
  validators : TierSound tiers.validators
  residents : TierSound tiers.residents
  apart : ∀ key ∈ tiers.validators, key ∉ tiers.residents

/-- Do both tiers hold the same members? -/
def Tiers.SameMembers (left right : Tiers) : Prop :=
  (∀ key, key ∈ left.validators ↔ key ∈ right.validators) ∧
    ∀ key, key ∈ left.residents ↔ key ∈ right.residents

/-- The tiers a store holds; a record that does not decode holds none. -/
def tiersOf (s : Store) : Tiers where
  validators := (tierOf (s .validators)).toOption.getD []
  residents := (tierOf (s .residents)).toOption.getD []

/-- The one record of a tier. -/
def tierRecord (tier : List Bytes) : Option Bytes := if tier = [] then none else some (tierFormat.write tier)

variable {tier : List Bytes}

theorem reads_tier (sound : TierSound tier) : tierFormat.Reads tier := by
  have cap := sound.capped
  refine reads_vec ?_ fun key mem => reads_bytes ?_
  · exact lt_of_le_of_lt cap (by decide)
  · rw [sound.width key mem]
    decide

theorem tierOf_record (sound : TierSound tier) : tierOf (tierRecord tier) = .ok tier := by
  unfold tierRecord
  split
  · rename_i empty
    rw [empty]
    rfl
  · rw [tierOf, decodeRecord, (reads_tier sound).fromSlice]

theorem length_tier (sound : TierSound tier) :
    (tierFormat.write tier).length ≤ 4 + 36 * maxMembers := by
  have each : (tier.map fun key => (bytes.write key).length) = tier.map fun _ => 36 := by
    refine map_congr_left fun key mem => ?_
    rw [length_bytes, sound.width key mem]
    rfl
  rw [tierFormat, length_vec, each, map_const', sum_replicate_nat]
  have cap := sound.capped
  omega

/-- The store holds these tiers. -/
structure Holds (s : Store) (tiers : Tiers) : Prop where
  validators : s .validators = tierRecord tiers.validators
  residents : s .residents = tierRecord tiers.residents

variable {tiers : Tiers}

theorem Holds.tiersOf_eq {s : Store} (holds : Holds s tiers) (sound : tiers.Sound) :
    tiersOf s = tiers := by
  rw [tiersOf, holds.validators, holds.residents, tierOf_record sound.validators,
    tierOf_record sound.residents]
  rfl

/-- Sound tiers are their members. -/
theorem Tiers.SameMembers.eq {left right : Tiers} (same : left.SameMembers right) (sound : left.Sound)
    (sound' : right.Sound) : left = right := by
  obtain ⟨validators, residents⟩ := left
  obtain rfl := sound.validators.sorted.eq_of_mem_iff sound'.validators.sorted same.1
  obtain rfl := sound.residents.sorted.eq_of_mem_iff sound'.residents.sorted same.2
  rfl

/-! ## Editing a tier -/

/-- The tier with the member in it. -/
def withMember (member : Bytes) (tier : List Bytes) : List Bytes :=
  match search (· < ·) member tier with
  | .ok _ => tier
  | .error position => tier.insertIdx position member

/-- The tier without the member. -/
def withoutMember (member : Bytes) (tier : List Bytes) : List Bytes :=
  match search (· < ·) member tier with
  | .ok position => tier.eraseIdx position
  | .error _ => tier

section edits

variable {member : Bytes} {tier : List Bytes}

section

variable (sound : TierSound tier)
include sound

/-- What a search of a sound tier finds, and so what an edit makes of it. -/
theorem TierSound.search_cases (member : Bytes) :
    (member ∈ tier ∧ withMember member tier = tier ∧ ∃ position,
      search (· < ·) member tier = .ok position ∧ withoutMember member tier = tier.eraseIdx position) ∨
    (member ∉ tier ∧ withoutMember member tier = tier ∧ ∃ position,
      search (· < ·) member tier = .error position ∧ withMember member tier = tier.insertIdx position member) := by
  have found := search_ok_iff (a := member) sound.sorted
  unfold withMember withoutMember
  cases searched : search (· < ·) member tier with
  | ok position => exact .inl ⟨found.mp ⟨position, searched⟩, rfl, position, rfl, rfl⟩
  | error position =>
    refine .inr ⟨fun mem => ?_, rfl, position, rfl, rfl⟩
    obtain ⟨_, other⟩ := found.mpr mem
    rw [searched] at other
    cases other

theorem TierSound.mem_withMember (key : Bytes) :
    key ∈ withMember member tier ↔ key = member ∨ key ∈ tier := by
  rcases sound.search_cases member with ⟨mem, same, -⟩ | ⟨-, -, position, missing, edited⟩
  · rw [same]
    exact ⟨.inr, fun either => either.elim (· ▸ mem) fun mem => mem⟩
  · rw [edited]
    exact mem_insertIdx_search sound.sorted missing key

theorem TierSound.withMember (width : member.length = keyLen)
    (room : member ∈ tier ∨ tier.length < maxMembers) : TierSound (withMember member tier) := by
  rcases sound.search_cases member with ⟨-, same, -⟩ | ⟨absent, -, position, missing, edited⟩
  · rwa [same]
  rw [edited]
  refine ⟨sorted_insertIdx_search sound.sorted missing, ?_, fun key mem => ?_⟩
  · rw [length_insertIdx_search sound.sorted missing]
    exact room.resolve_left absent
  · rcases (mem_insertIdx_search sound.sorted missing key).mp mem with rfl | mem
    exacts [width, sound.width key mem]

theorem TierSound.mem_withoutMember (key : Bytes) :
    key ∈ withoutMember member tier ↔ key ∈ tier ∧ key ≠ member := by
  rcases sound.search_cases member with ⟨-, -, position, found, edited⟩ | ⟨absent, same, -⟩
  · rw [edited]
    exact mem_eraseIdx_search sound.sorted found key
  · rw [same]
    exact ⟨fun mem => ⟨mem, fun same => absent (same ▸ mem)⟩, And.left⟩

theorem TierSound.withoutMember : TierSound (withoutMember member tier) := by
  rcases sound.search_cases member with ⟨-, -, position, -, edited⟩ | ⟨-, same, -⟩
  · have sublist := eraseIdx_sublist tier position
    rw [edited]
    exact ⟨sound.sorted.sublist sublist, sublist.length_le.trans sound.capped,
      fun key mem => sound.width key (sublist.subset mem)⟩
  · rwa [same]

end

end edits

/-- What an operation makes of the tiers; `none` where it is refused. -/
def applied (V : Valset) (tiers : Tiers) : ValsetMsg → Option Tiers
  | .join key =>
    if (V.validateKey key).isOk ∧ (key ∈ tiers.validators ∨ tiers.validators.length < maxMembers) then
      some ⟨withMember key tiers.validators, withoutMember key tiers.residents⟩
    else none
  | .leave key =>
    if key ∈ tiers.validators ∧ tiers.validators.length = 1 then none
    else some { tiers with validators := withoutMember key tiers.validators }
  | .grant key =>
    if (V.validateKey key).isOk ∧ key ∉ tiers.validators ∧
        (key ∈ tiers.residents ∨ tiers.residents.length < maxMembers) then
      some { tiers with residents := withMember key tiers.residents }
    else none
  | .revoke key => some { tiers with residents := withoutMember key tiers.residents }

variable {V : Valset}

theorem width_of_valid {key : Bytes} (valid : (V.validateKey key).isOk) :
    key.length = keyLen := by
  by_contra other
  rw [validateKey, if_pos other] at valid
  cases valid

variable {tiers' : Tiers}

/-- An operation keeps the tiers sound. -/
theorem Tiers.Sound.applied (sound : tiers.Sound) {msg : ValsetMsg}
    (accepted : applied V tiers msg = some tiers') : tiers'.Sound := by
  cases msg with
  | join key =>
    simp only [Valset.applied] at accepted
    split at accepted
    · rename_i allowed
      cases accepted
      refine ⟨sound.validators.withMember (width_of_valid allowed.1) allowed.2,
        sound.residents.withoutMember, fun other mem => ?_⟩
      rw [sound.residents.mem_withoutMember]
      rintro ⟨resident, apart⟩
      rcases (sound.validators.mem_withMember other).mp mem with same | mem
      · exact apart same
      · exact sound.apart other mem resident
    · cases accepted
  | leave key =>
    simp only [Valset.applied] at accepted
    split at accepted
    · cases accepted
    · cases accepted
      refine ⟨sound.validators.withoutMember, sound.residents, fun other mem => ?_⟩
      exact sound.apart other ((sound.validators.mem_withoutMember other).mp mem).1
  | grant key =>
    simp only [Valset.applied] at accepted
    split at accepted
    · rename_i allowed
      cases accepted
      refine ⟨sound.validators, sound.residents.withMember (width_of_valid allowed.1) allowed.2.2,
        fun other mem resident => ?_⟩
      rcases (sound.residents.mem_withMember other).mp resident with rfl | resident
      · exact allowed.2.1 mem
      · exact sound.apart other mem resident
    · cases accepted
  | revoke key =>
    cases accepted
    refine ⟨sound.validators, sound.residents.withoutMember, fun other mem resident => ?_⟩
    exact sound.apart other mem ((sound.residents.mem_withoutMember other).mp resident).1

/-- An operation never empties the validator tier. -/
theorem applied_nonempty (sound : tiers.Sound) {msg : ValsetMsg}
    (accepted : applied V tiers msg = some tiers') (seated : tiers.validators ≠ []) :
    tiers'.validators ≠ [] := by
  obtain ⟨first, rest, shape⟩ := exists_cons_of_ne_nil seated
  cases msg with
  | join key =>
    simp only [applied] at accepted
    split at accepted <;> cases accepted
    refine ne_nil_of_mem ((sound.validators.mem_withMember first).mpr (.inr ?_))
    rw [shape]
    exact mem_cons_self
  | leave key =>
    simp only [applied] at accepted
    split at accepted
    · cases accepted
    rename_i allowed
    cases accepted
    rcases sound.validators.search_cases key with ⟨mem, -, position, found, edited⟩ | ⟨-, same, -⟩
    · have length := length_eraseIdx_search found
      have many : tiers.validators.length ≠ 1 := fun one => allowed ⟨mem, one⟩
      have left : 0 < (tiers.validators.eraseIdx position).length := by omega
      exact edited ▸ ne_nil_of_length_pos left
    · rwa [same]
  | grant key =>
    simp only [applied] at accepted
    split at accepted <;> cases accepted
    exact seated
  | revoke key =>
    cases accepted
    exact seated

/-! ## What the handlers do -/

/-- Stage a tier's record. -/
def setTier (staged : StagedStore Key Value) (key : Key) (tier : List Bytes) : StagedStore Key Value :=
  if tier = [] then staged.delete key else staged.stage key (tierFormat.write tier)

@[simp] theorem store_setTier (staged : StagedStore Key Value) (key : Key) (tier : List Bytes) :
    (setTier staged key tier).store = staged.store := by
  unfold setTier
  split <;> rfl

@[simp] theorem get_setTier (staged : StagedStore Key Value) (key : Key) (tier : List Bytes) :
    (setTier staged key tier).get = Function.update staged.get key (tierRecord tier) := by
  unfold setTier tierRecord
  split
  · exact get_delete ..
  · exact get_stage ..

section handlers

variable {V : Valset} {ask : (q : Ask) → Answer q} {s s' : Scratch Key Value} {key : Key}
  {tier : List Bytes} {member : Bytes} {tiers : Tiers} {h : Op Unit} {result : Option Tiers}

theorem ends_tier (held : s.staged.get key = tierRecord tier) (sound : TierSound tier) {read : List Bytes} :
    Ends ask (Valset.tier key) s read s' ↔ tier = read ∧ s = s' := by
  simp only [Valset.tier, ends_bind, ends_view, ends_ofExcept]
  constructor
  · rintro ⟨_, _, ⟨rfl, rfl⟩, read_eq, rfl⟩
    rw [held, tierOf_record sound] at read_eq
    exact ⟨ok.inj read_eq, rfl⟩
  · rintro ⟨rfl, rfl⟩
    exact ⟨_, _, ⟨rfl, rfl⟩, by rw [held, tierOf_record sound], rfl⟩

theorem ends_storeTier (sound : TierSound tier) :
    Ends ask (storeTier key tier) s () s' ↔
      { s with staged := setTier s.staged key tier } = s' := by
  unfold storeTier setTier
  split
  · exact ends_delete
  · have small : ¬ (tierFormat.write tier).length > maxTierRecordBytes :=
      not_lt.mpr ((length_tier sound).trans (by decide))
    simp [small]

theorem ends_addMember {what : String} (held : s.staged.get key = tierRecord tier) (sound : TierSound tier)
    (width : member.length = keyLen) :
    Ends ask (addMember key what member) s () s' ↔
      member ∈ tier ∧ s = s' ∨ member ∉ tier ∧ tier.length < maxMembers ∧
        { s with staged := setTier s.staged key (withMember member tier) } = s' := by
  have edited : _ → TierSound (withMember member tier) := sound.withMember width
  simp only [addMember, ends_bind, ends_tier held sound]
  rcases sound.search_cases member with ⟨mem, -, position, found, -⟩ | ⟨mem, -, position, found, inserted⟩
  · simp [found, mem]
  simp only [mem, false_or, not_false_eq_true, true_and, false_and] at edited ⊢
  constructor
  · rintro ⟨_, _, ⟨rfl, rfl⟩, ends⟩
    simp only [found, ← inserted, ends_bind, requireCapacity, ends_refuseIf] at ends
    obtain ⟨_, _, ⟨room, rfl⟩, ends⟩ := ends
    have room : tier.length < maxMembers := Nat.lt_of_not_le room
    exact ⟨room, (ends_storeTier (edited room)).mp ends⟩
  · rintro ⟨room, ends⟩
    refine ⟨_, _, ⟨rfl, rfl⟩, ?_⟩
    simp only [found, ← inserted, ends_bind, requireCapacity, ends_refuseIf]
    exact ⟨(), s, ⟨not_le.mpr room, rfl⟩, (ends_storeTier (edited room)).mpr ends⟩

/-- A run that staged these tiers and touched nothing else. -/
structure Stages (s s' : Scratch Key Value) (tiers : Tiers) : Prop where
  holds : Holds s'.staged.get tiers
  store : s'.staged.store = s.staged.store
  out : s'.out = s.out
  frame : ∀ key, key ≠ .validators → key ≠ .residents → s'.staged.get key = s.staged.get key

theorem stages_setValidators (holds : Holds s.staged.get tiers) (tier : List Bytes) :
    Stages s { s with staged := setTier s.staged .validators tier } { tiers with validators := tier } where
  holds := ⟨by simp, by simpa using holds.residents⟩
  store := store_setTier ..
  out := rfl
  frame key apart _ := by simp [apart]

theorem stages_setResidents (holds : Holds s.staged.get tiers) (tier : List Bytes) :
    Stages s { s with staged := setTier s.staged .residents tier } { tiers with residents := tier } where
  holds := ⟨by simpa using holds.validators, by simp⟩
  store := store_setTier ..
  out := rfl
  frame key _ apart := by simp [apart]

theorem Stages.refl (holds : Holds s.staged.get tiers) : Stages s s tiers :=
  ⟨holds, rfl, rfl, fun _ _ _ => rfl⟩

theorem Stages.trans {m : Scratch Key Value} (first : Stages s m tiers)
    (second : Stages m s' tiers') : Stages s s' tiers' :=
  ⟨second.holds, second.store.trans first.store, second.out.trans first.out,
    fun key left right => (second.frame key left right).trans (first.frame key left right)⟩

variable (ask) in
/-- The handler is refused, or leaves these tiers staged. -/
def Performs (h : Op Unit) (s : Scratch Key Value) : Option Tiers → Prop
  | some tiers => ∃ s', Ends ask h s () s' ∧ Stages s s' tiers
  | none => ∀ s', ¬ Ends ask h s () s'

theorem Performs.stages (performs : Performs ask h s result) (ends : Ends ask h s () s') :
    ∃ tiers, result = some tiers ∧ Stages s s' tiers := by
  cases result with
  | none => exact absurd ends (performs s')
  | some tiers =>
    obtain ⟨other, ends', stages⟩ := performs
    obtain rfl : s' = other := (Prod.mk.inj (ends.symm.trans ends')).2
    exact ⟨tiers, rfl, stages⟩

/-- Handlers that end alike perform alike. -/
theorem Performs.congr {h' : Op Unit} (performs : Performs ask h s result)
    (same : ∀ s', Ends ask h' s () s' ↔ Ends ask h s () s') : Performs ask h' s result := by
  cases result with
  | none => exact fun s' ends => performs s' ((same s').mp ends)
  | some tiers =>
    obtain ⟨s', ends, stages⟩ := performs
    exact ⟨s', (same s').mpr ends, stages⟩

/-- A valid key, or a refusal. -/
theorem Performs.validated {rest : Op Unit}
    (valid : (V.validateKey member).isOk → Performs ask rest s result)
    (invalid : ¬ (V.validateKey member).isOk → result = none) :
    Performs ask (ofExcept (V.validateKey member) >>= fun _ => rest) s result := by
  cases checked : V.validateKey member with
  | error e =>
    rw [invalid (by rw [checked]; exact Bool.false_ne_true)]
    intro s' ends
    simp at ends
  | ok _ =>
    rw [checked] at valid
    refine (valid rfl).congr fun s' => ?_
    simp

/-- One handler after another. -/
theorem Performs.bind {f : Unit → Op Unit} (first : Performs ask h s (some tiers))
    (rest : ∀ m, Stages s m tiers → Performs ask (f ()) m result) :
    Performs ask (h >>= f) s result := by
  obtain ⟨m, ends, stages⟩ := first
  have after := rest m stages
  cases result with
  | none =>
    intro s' both
    obtain ⟨_, m', ends', ends''⟩ := ends_bind.mp both
    obtain rfl : m = m' := (Prod.mk.inj (ends.symm.trans ends')).2
    exact after s' ends''
  | some tiers' =>
    obtain ⟨s', ends', stages'⟩ := after
    exact ⟨s', ends_bind.mpr ⟨(), m, ends, ends'⟩, stages.trans stages'⟩

theorem performs_addMember {set : List Bytes → Tiers} {what : String}
    (held : s.staged.get key = tierRecord tier) (sound : TierSound tier)
    (sets : ∀ tier', Stages s { s with staged := setTier s.staged key tier' } (set tier'))
    (keeps : Stages s s (set tier)) (width : member.length = keyLen) :
    Performs ask (addMember key what member) s
      (if member ∈ tier ∨ tier.length < maxMembers then some (set (withMember member tier)) else none) := by
  have ends : ∀ s', Ends ask (addMember key what member) s () s' ↔ _ := fun s' =>
    ends_addMember held sound width
  rcases sound.search_cases member with ⟨mem, same, -⟩ | ⟨mem, -⟩
  · rw [if_pos (.inl mem), same]
    exact ⟨s, (ends s).mpr (.inl ⟨mem, rfl⟩), keeps⟩
  by_cases room : tier.length < maxMembers
  · rw [if_pos (.inr room)]
    exact ⟨_, (ends _).mpr (.inr ⟨mem, room, rfl⟩), sets _⟩
  rw [if_neg (not_or.mpr ⟨mem, room⟩)]
  intro s' added
  rcases (ends s').mp added with ⟨mem', -⟩ | ⟨-, room', -⟩
  · exact mem mem'
  · exact room room'

section members

variable {tiers : Tiers} (holds : Holds s.staged.get tiers) (sound : tiers.Sound)
include holds sound

theorem performs_addValidator (what : String) (width : member.length = keyLen) :
    Performs ask (addMember .validators what member) s
      (if member ∈ tiers.validators ∨ tiers.validators.length < maxMembers then
        some { tiers with validators := withMember member tiers.validators } else none) :=
  performs_addMember holds.validators sound.validators (stages_setValidators holds) (.refl holds) width

theorem performs_removeResident :
    Performs ask (removeMember .residents member) s
      (some { tiers with residents := withoutMember member tiers.residents }) := by
  have edited : TierSound (withoutMember member tiers.residents) := sound.residents.withoutMember
  simp only [Performs, removeMember, ends_bind, ends_tier holds.residents sound.residents]
  rcases sound.residents.search_cases member with ⟨-, -, _, found, erased⟩ | ⟨-, same, _, found, -⟩
  · exact ⟨_, by simp [found, ← erased, ends_storeTier edited], stages_setResidents holds _⟩
  · exact ⟨s, by simp [found], same.symm ▸ .refl holds⟩

/-- **What an operation does to the tiers.** -/
theorem performs_handleMsg (msg : ValsetMsg) : Performs ask (V.handleMsg msg) s (applied V tiers msg) := by
  cases msg with
  | join key =>
    simp only [applied]
    refine Performs.validated (fun valid => ?_) fun invalid => if_neg fun both => invalid both.1
    simp only [valid, true_and]
    refine (performs_removeResident holds sound).bind fun m stages => ?_
    have sound' : Tiers.Sound { tiers with residents := withoutMember key tiers.residents } :=
      sound.applied (rfl : applied V tiers (.revoke key) = _)
    exact performs_addValidator stages.holds sound' "validator" (width_of_valid valid)
  | leave key =>
    have read : ∀ s' keys, Ends ask (tier .validators) s keys s' ↔ _ := fun s' keys =>
      ends_tier holds.validators sound.validators
    simp only [handleMsg, handleLeave, applied]
    rcases sound.validators.search_cases key with
      ⟨mem, -, position, found, erased⟩ | ⟨missing, same, position, found, -⟩
    · have edited : TierSound (withoutMember key tiers.validators) := sound.validators.withoutMember
      simp only [mem, true_and]
      split
      · rename_i last
        intro s' ends
        simp [validators, read, found, last] at ends
      · rename_i many
        refine ⟨_, ?_, stages_setValidators holds _⟩
        simp [validators, read, found, many, ← erased, ends_storeTier edited]
    · rw [if_neg (fun both => missing both.1), same]
      refine ⟨s, ?_, .refl holds⟩
      simp [validators, read, found]
  | grant key =>
    have read : ∀ s' keys, Ends ask (tier .validators) s keys s' ↔ _ := fun s' keys =>
      ends_tier holds.validators sound.validators
    simp only [applied]
    refine Performs.validated (fun valid => ?_) fun invalid => if_neg fun both => invalid both.1
    simp only [valid, true_and]
    rcases sound.validators.search_cases key with ⟨mem, -, _, found, -⟩ | ⟨missing, -, _, found, -⟩
    · rw [if_neg (fun both => both.1 mem)]
      intro s' ends
      simp [validators, read, found] at ends
    · simp only [missing, not_false_eq_true, true_and]
      refine Performs.congr (h := addMember .residents "resident" key) (performs_addMember holds.residents
        sound.residents (stages_setResidents holds) (.refl holds) (width_of_valid valid)) fun s' => ?_
      simp [validators, read, found]
  | revoke key => exact performs_removeResident holds sound

end members

end handlers

/-! ## Reachable states -/

/-- The states that a genesis and any blocks of operations lead to, with the tiers committed at each
generation. A refused operation leaves nothing staged; a block is committed or aborted. -/
inductive Reachable (V : Valset) : StagedStore Key Value → List Tiers → Prop
  | genesis {ask keys s} : Ends ask (initialise keys) ⟨.new fun _ => none, default⟩ () s →
      Reachable V s.staged [tiersOf s.staged.store]
  | call {staged history} (call : Invocation Msg) : Reachable V staged history →
      Reachable V (call.settle V.execute staged) history
  | changes {ask staged history s} : Reachable V staged history →
      Ends ask commitBlock ⟨staged, default⟩ () s →
      ¬ (tiersOf staged.store).SameMembers (tiersOf s.staged.store) →
      Reachable V s.staged (history ++ [tiersOf s.staged.store])
  | stays {ask staged history s} : Reachable V staged history →
      Ends ask commitBlock ⟨staged, default⟩ () s →
      (tiersOf staged.store).SameMembers (tiersOf s.staged.store) → Reachable V s.staged history
  | abort {ask staged history s} : Reachable V staged history →
      Ends ask abortBlock ⟨staged, default⟩ () s → Reachable V s.staged history

/-- The tiers the window serves for a generation: those of the last few generations, and of the genesis
only if it had validators. -/
def retained (history : List Tiers) (generation : Nat) : Option Tiers :=
  if history.length ≤ generation + retainedGenerations ∧
      (generation = genesisGeneration → ∀ genesis ∈ history.head?, genesis.validators ≠ []) then
    history[generation]?
  else none

/-- One generation's record. -/
def snapshotRecord (tiers : Tiers) : Bytes := snapshotFormat.write (tiers.validators, tiers.residents)

/-- What every reachable state keeps, with the tiers committed now and the tiers staged now. -/
structure Keeps (staged : StagedStore Key Value) (history : List Tiers) (base now : Tiers) : Prop where
  sound : base.Sound
  stagedSound : now.Sound
  holds : Holds staged.store base
  stagedHolds : Holds staged.get now
  frame : ∀ key, key ≠ .validators → key ≠ .residents → staged.get key = staged.store key
  newest : history.getLast? = some base
  counter : staged.store .generation = some (counterFormat.write (history.length - 1))
  counted : history.length - 1 ≤ u64Max
  window : ∀ generation, staged.store (.generationSet generation)
    = (retained history generation).map snapshotRecord
  seated : base.validators ≠ [] → now.validators ≠ []
  /-- The history never goes back to no validators. -/
  lasting : ∀ (i j : Nat) (earlier later : Tiers), history[i]? = some earlier → history[j]? = some later → i ≤ j →
    earlier.validators ≠ [] → later.validators ≠ []

section keeps

variable {V : Valset} {staged : StagedStore Key Value} {history : List Tiers} {base now : Tiers}
  {ask : (q : Ask) → Answer q}

section

variable (keeps : Keeps staged history base now)
include keeps

/-- A call keeps what is kept. -/
theorem Keeps.call (call : Invocation Msg) :
    ∃ now', Keeps (call.settle V.execute staged) history base now' := by
  rcases call.settle_cases V.execute staged with same | ⟨out, accepted⟩
  · rw [same]
    exact ⟨now, keeps⟩
  have ends := Invocation.accepted_iff.mp accepted
  simp only [execute, ends_bind, ends_ofExcept] at ends
  obtain ⟨_, _, ⟨-, rfl⟩, ends⟩ := ends
  cases decoded : V.valsetMsg.decode call.msg.payload with
  | error text =>
    rw [decoded] at ends
    exact absurd ends ends_fail
  | ok msg =>
    rw [decoded] at ends
    obtain ⟨now', applied, stages⟩ := (performs_handleMsg keeps.stagedHolds keeps.stagedSound msg).stages ends
    have store : (call.settle V.execute staged).store = staged.store := stages.store
    refine ⟨now', { keeps with
      stagedSound := keeps.stagedSound.applied applied
      holds := store ▸ keeps.holds
      stagedHolds := stages.holds
      frame := fun key left right => ?_
      counter := store ▸ keeps.counter
      window := store ▸ keeps.window
      seated := fun seated => applied_nonempty keeps.stagedSound applied (keeps.seated seated) }⟩
    rw [store]
    exact (stages.frame key left right).trans (keeps.frame key left right)

theorem Keeps.abort : Keeps staged.abort history base base :=
  { keeps with
    stagedSound := keeps.sound
    stagedHolds := keeps.holds
    frame := fun _ _ _ => rfl
    seated := fun seated => seated }

/-- The raw comparison at the boundary finds out whether the tiers changed. -/
theorem Keeps.records_eq_iff :
    (staged.get .validators = staged.store .validators ∧ staged.get .residents = staged.store .residents) ↔
      now = base := by
  rw [keeps.holds.validators, keeps.holds.residents, keeps.stagedHolds.validators,
    keeps.stagedHolds.residents]
  constructor
  · rintro ⟨validators, residents⟩
    have left := congrArg tierOf validators
    have right := congrArg tierOf residents
    rw [tierOf_record keeps.stagedSound.validators, tierOf_record keeps.sound.validators] at left
    rw [tierOf_record keeps.stagedSound.residents, tierOf_record keeps.sound.residents] at right
    rw [Tiers.mk.injEq]
    exact ⟨ok.inj left, ok.inj right⟩
  · rintro rfl
    exact ⟨rfl, rfl⟩

theorem Keeps.length_pos : 0 < history.length := by
  refine length_pos_iff.mpr ?_
  rintro rfl
  have newest := keeps.newest
  cases newest

end

theorem length_snapshot {tiers : Tiers} (sound : tiers.Sound) :
    (snapshotRecord tiers).length ≤ maxTierRecordBytes := by
  have left := length_tier sound.validators
  have right := length_tier sound.residents
  have cap : (4 + 36 * maxMembers) + (4 + 36 * maxMembers) ≤ maxTierRecordBytes := by decide
  rw [snapshotRecord, snapshotFormat, length_pair]
  exact (Nat.add_le_add left right).trans cap

/-- The store a changing block commits. -/
def advanced (s : Store) (now : Tiers) (next : Nat) : Store
  | .validators => tierRecord now.validators
  | .residents => tierRecord now.residents
  | .generation => some (counterFormat.write next)
  | .generationSet generation =>
    if generation = next then some (snapshotRecord now)
    else if generation + retainedGenerations = next then none
    else s (.generationSet generation)

theorem Keeps.generation_committed (keeps : Keeps staged history base now) :
    generationOf (staged.store .generation) = .ok (history.length - 1) := by
  rw [keeps.counter, generationOf, decodeRecord, counterFormat,
    (reads_uint (lt_of_le_of_lt keeps.counted (by decide))).fromSlice]

/-- The counter, as a handler reads it. -/
theorem Keeps.generation_eq (keeps : Keeps staged history base now) :
    generationOf (staged.get .generation) = .ok (history.length - 1) := by
  rw [keeps.frame .generation (by decide) (by decide), keeps.generation_committed]

/-- The staged writes of an advance: the counter, the snapshot, and the stale snapshot's end. -/
def advancing (staged : StagedStore Key Value) (now : Tiers) (next : Nat) : StagedStore Key Value :=
  let noted := (staged.stage .generation (counterFormat.write next)).stage (.generationSet next)
    (snapshotFormat.write (now.validators, now.residents))
  let stale := Key.generationSet (next - retainedGenerations)
  if retainedGenerations ≤ next ∧ (noted.get stale).isSome then noted.delete stale else noted

section

variable (keeps : Keeps staged history base now)
include keeps

variable {s' : Scratch Key Value}

/-- The counter is the only thing that can keep a generation from advancing. -/
theorem Keeps.ends_advanceGeneration {out : Outputs} :
    Ends ask advanceGeneration ⟨staged, out⟩ () s' ↔
      history.length ≤ u64Max ∧ ⟨advancing staged now history.length, out⟩ = s' := by
  have next : history.length - 1 + 1 = history.length := Nat.sub_add_cancel keeps.length_pos
  have fits : ¬ (snapshotFormat.write (now.validators, now.residents)).length > maxTierRecordBytes :=
    Nat.not_lt.mpr (length_snapshot keeps.stagedSound)
  have validators {read s''} : Ends ask validators _ read s'' ↔ _ := ends_tier
    (s := ⟨staged.stage .generation (counterFormat.write history.length), out⟩)
    keeps.stagedHolds.validators keeps.stagedSound.validators
  have residents {read s''} : Ends ask residents _ read s'' ↔ _ := ends_tier
    (s := ⟨staged.stage .generation (counterFormat.write history.length), out⟩)
    keeps.stagedHolds.residents keeps.stagedSound.residents
  by_cases bounded : history.length ≤ u64Max
  · simp only [advanceGeneration, generation, ends_bind, ends_view, ends_ofExcept, ends_require,
      stageGenerationCounter, ends_stage, and_assoc, exists_and_left, exists_eq_left', keeps.generation_eq,
      ok.injEq, next, bounded, if_true, Option.some.injEq, validators, residents,
      stageGenerationSnapshot, ends_refuseIf, fits, exists_const, advancing]
    split
    · rename_i early
      rw [if_neg fun late => absurd early (Nat.not_lt.mpr late.1)]
      simp
    · rename_i late
      simp only [Nat.le_of_not_lt late, true_and, ends_bind, ends_view, and_assoc, exists_and_left,
        exists_eq_left']
      split <;> simp
  · simp only [advanceGeneration, generation, ends_bind, ends_view, ends_ofExcept, ends_require,
      and_assoc, exists_and_left, exists_eq_left', keeps.generation_eq, ok.injEq, next, bounded,
      if_false, reduceCtorEq, false_and, exists_const]

theorem Keeps.get_advancing :
    (advancing staged now history.length).get = advanced staged.store now history.length := by
  have pruned : (advancing staged now history.length).get = fun key =>
      if retainedGenerations ≤ history.length ∧ key = .generationSet (history.length - retainedGenerations)
      then none
      else put (put staged.get .generation (counterFormat.write history.length))
        (.generationSet history.length) (snapshotRecord now) key := by
    funext key
    unfold advancing
    by_cases stale : key = .generationSet (history.length - retainedGenerations)
    · subst stale
      by_cases late : retainedGenerations ≤ history.length
      · simp only [late, true_and]
        split
        · exact (congrFun (get_delete _ _) _).trans (drop_self _)
        · rename_i absent
          exact Option.not_isSome_iff_eq_none.mp absent
      · simp [late, snapshotRecord]
    · simp only [stale]
      split <;> simp [stale, snapshotRecord]
  rw [pruned]
  funext key
  cases key with
  | validators => simpa [advanced] using keeps.stagedHolds.validators
  | residents => simpa [advanced] using keeps.stagedHolds.residents
  | generation => simp [advanced]
  | generationSet generation =>
    have stale : (retainedGenerations ≤ history.length ∧
        Key.generationSet generation = .generationSet (history.length - retainedGenerations)) ↔
        generation + retainedGenerations = history.length := by
      simp only [Key.generationSet.injEq]
      omega
    simp only [stale, advanced]
    by_cases current : generation = history.length
    · have fresh : generation + retainedGenerations ≠ history.length := by
        simp only [retainedGenerations]
        omega
      rw [if_neg fresh, if_pos current, current, put_self]
    · have other : Key.generationSet generation ≠ .generationSet history.length := by simpa using current
      rw [if_neg current, put_of_ne _ other, put_of_ne _ (by simp), keeps.frame _ (by simp) (by simp)]

/-- The window after a generation was added. -/
theorem retained_append (generation : Nat) :
    (retained (history ++ [now]) generation).map snapshotRecord
      = if generation = history.length then some (snapshotRecord now)
        else if generation + retainedGenerations = history.length then none
        else (retained history generation).map snapshotRecord := by
  have positive := keeps.length_pos
  have head : (history ++ [now]).head? = history.head? := by
    cases history with
    | nil => cases positive
    | cons _ _ => rfl
  unfold retained
  rw [head, length_append, length_singleton]
  by_cases current : generation = history.length
  · have cond : history.length + 1 ≤ generation + retainedGenerations ∧ (generation = genesisGeneration →
        ∀ genesis ∈ history.head?, genesis.validators ≠ []) := by
      refine ⟨by rw [retainedGenerations]; omega, fun zero => ?_⟩
      exact absurd (current.symm.trans zero) (ne_of_gt positive)
    rw [if_pos cond, current]
    simp
  · rw [if_neg current]
    have same : (history ++ [now])[generation]? = history[generation]? := by
      rcases lt_or_gt_of_ne current with below | above
      · exact getElem?_append_left below
      · rw [getElem?_eq_none (by simp; omega), getElem?_eq_none (by omega)]
    rw [same]
    by_cases stale : generation + retainedGenerations = history.length
    · rw [if_pos stale, if_neg (fun cond => by omega), Option.map_none]
    rw [if_neg stale]
    have bound : history.length + 1 ≤ generation + retainedGenerations ↔
        history.length ≤ generation + retainedGenerations := by omega
    simp [bound]

theorem Keeps.ends_commitBlock (ends : Ends ask commitBlock ⟨staged, default⟩ () s') :
    (now = base ∧ s'.staged = .new staged.store) ∨ now ≠ base ∧ history.length ≤ u64Max ∧
        s'.staged = .new (advanced staged.store now history.length) := by
  have changed := keeps.records_eq_iff
  simp only [commitBlock, ends_bind, ends_publish] at ends
  obtain ⟨_, _, ⟨_, _, ⟨rfl, rfl⟩, _, _, ⟨rfl, rfl⟩, rfl, rfl⟩, _, m, ends, rfl⟩ := ends
  by_cases same : now = base
  · -- nothing changed: every record stays as it was
    obtain ⟨validators, residents⟩ := changed.mpr same
    rw [validators, residents] at ends
    simp only [ne_eq] at ends
    obtain ⟨-, rfl⟩ := ends
    refine .inl ⟨same, congrArg new (funext fun key => ?_)⟩
    by_cases left : key = .validators
    · rw [left]
      exact validators
    by_cases right : key = .residents
    · rw [right]
      exact residents
    exact keeps.frame key left right
  · have differs : (decide (staged.get .validators ≠ staged.store .validators) ||
        decide (staged.get .residents ≠ staged.store .residents)) = true := by
      by_contra equal
      refine same (changed.mp ?_)
      simpa using equal
    rw [if_pos differs] at ends
    obtain ⟨bounded, rfl⟩ := keeps.ends_advanceGeneration.mp ends
    exact .inr ⟨same, bounded, congrArg new keeps.get_advancing⟩

theorem Keeps.commitBlock_ends (bounded : history.length ≤ u64Max) :
    ∃ s, Ends ask commitBlock ⟨staged, default⟩ () s := by
  obtain ⟨m, ends⟩ : ∃ m, Ends ask (if (decide (staged.get .validators ≠ staged.store .validators) ||
      decide (staged.get .residents ≠ staged.store .residents)) = true then advanceGeneration else pure ())
      ⟨staged, default⟩ () m := by
    split
    · exact ⟨_, keeps.ends_advanceGeneration.mpr ⟨bounded, rfl⟩⟩
    · exact ⟨_, ends_pure.mpr ⟨rfl, rfl⟩⟩
  refine ⟨{ m with staged := m.staged.commit }, ?_⟩
  simp only [commitBlock, stagedMembershipChanged, ends_bind, ends_view,
    ends_committed, ends_pure]
  exact ⟨_, _, ⟨_, _, ⟨rfl, rfl⟩, _, _, ⟨rfl, rfl⟩, rfl, rfl⟩, (), m, ends, rfl⟩

theorem Keeps.advance
    (bounded : history.length ≤ u64Max) :
    Keeps (.new (advanced staged.store now history.length)) (history ++ [now]) now now where
  sound := keeps.stagedSound
  stagedSound := keeps.stagedSound
  holds := ⟨rfl, rfl⟩
  stagedHolds := ⟨rfl, rfl⟩
  frame _ _ _ := rfl
  newest := by simp
  counter := by simp [advanced, new]
  counted := by simpa using bounded
  window generation := by
    rw [retained_append keeps]
    simp [new, advanced, keeps.window]
  seated seated := seated
  lasting i j earlier later atI atJ le seated := by
    have newest : history[history.length - 1]? = some base := getLast?_eq_getElem? ▸ keeps.newest
    have last : ∀ k tiers, (history ++ [now])[k]? = some tiers → history.length ≤ k → tiers = now := by
      intro k tiers found late
      rw [getElem?_append_right late, getElem?_singleton] at found
      split at found <;> cases found
      rfl
    by_cases early : j < history.length
    · rw [getElem?_append_left early] at atJ
      rw [getElem?_append_left (lt_of_le_of_lt le early)] at atI
      exact keeps.lasting i j earlier later atI atJ le seated
    · rw [last j later atJ (Nat.le_of_not_lt early)]
      by_cases before : i < history.length
      · rw [getElem?_append_left before] at atI
        exact keeps.seated (keeps.lasting i _ earlier base atI newest (by omega) seated)
      · rw [last i earlier atI (Nat.le_of_not_lt before)] at seated
        exact seated

end

end keeps

/-! ## The genesis -/

section genesis

variable {ask : (q : Ask) → Answer q} {s s' : Scratch Key Value} {tiers : Tiers}

variable {keys : List Bytes}

theorem ends_seedAll (holds : Holds s.staged.get tiers) (sound : tiers.Sound)
    (empty : tiers.residents = []) (ends : Ends ask (seedAll keys) s () s') :
    ∃ tiers', Stages s s' tiers' ∧ tiers'.Sound ∧ tiers'.residents = [] := by
  induction keys generalizing s tiers with
  | nil =>
    obtain ⟨-, rfl⟩ := ends_pure.mp ends
    exact ⟨tiers, .refl holds, sound, empty⟩
  | cons key keys ih =>
    simp only [seedAll, seed, ends_bind, ends_refuseIf] at ends
    obtain ⟨_, _, ⟨width, rfl⟩, _, m, ⟨_, _, ⟨-, rfl⟩, ends⟩, rest⟩ := ends
    have width : key.length = keyLen := not_not.mp width
    obtain ⟨tiers', result, stages⟩ := (performs_addValidator holds sound "validator" width).stages ends
    split at result <;> cases result
    rename_i room
    have sound' : Tiers.Sound { tiers with validators := withMember key tiers.validators } := by
      refine ⟨sound.validators.withMember width room, sound.residents, fun _ _ => ?_⟩
      rw [empty]
      exact not_mem_nil
    obtain ⟨tiers', stages', sound', empty'⟩ := ih stages.holds sound' empty rest
    exact ⟨tiers', stages.trans stages', sound', empty'⟩

/-- The store a genesis commits. -/
def founded (base : Tiers) : Store
  | .validators => tierRecord base.validators
  | .residents => tierRecord base.residents
  | .generation => some (counterFormat.write genesisGeneration)
  | .generationSet generation =>
    if generation = genesisGeneration ∧ base.validators ≠ [] then some (snapshotRecord base) else none

theorem keeps_founded (sound : tiers.Sound) : Keeps (.new (founded tiers)) [tiers] tiers tiers where
  sound := sound
  stagedSound := sound
  holds := ⟨rfl, rfl⟩
  stagedHolds := ⟨rfl, rfl⟩
  frame _ _ _ := rfl
  newest := rfl
  counter := rfl
  counted := zero_le _
  window generation := by
    simp only [new, founded, retained, genesisGeneration]
    cases generation with
    | zero => by_cases seated : tiers.validators = [] <;> simp [seated, retainedGenerations]
    | succ generation => simp
  seated seated := seated
  lasting i j earlier later atI atJ le seated := by
    rw [getElem?_singleton] at atI atJ
    split at atI <;> split at atJ <;> cases atI <;> cases atJ
    exact seated

theorem ends_initialise (ends : Ends ask (initialise keys) ⟨.new fun _ => none, default⟩ () s') :
    ∃ base, Keeps s'.staged [tiersOf s'.staged.store] base base := by
  simp only [initialise, ends_bind] at ends
  obtain ⟨_, m, seeded, finished⟩ := ends
  have nothing : Tiers.Sound ⟨[], []⟩ := ⟨⟨.nil, zero_le _, by simp⟩, ⟨.nil, zero_le _, by simp⟩, by simp⟩
  obtain ⟨base, stages, sound, empty⟩ := ends_seedAll ⟨rfl, rfl⟩ nothing rfl seeded
  have unseeded : m.staged.store .generation = none := by rw [stages.store]; rfl
  simp only [finishSeed, ends_bind] at finished
  obtain ⟨_, _, ⟨rfl, rfl⟩, finished⟩ := finished
  rw [unseeded] at finished
  simp only [Option.isSome_none, Bool.false_eq_true, if_false, ends_bind, stageGenerationCounter,
    ends_stage, ends_publish] at finished
  obtain ⟨_, _, read, _, _, rfl, _, _, snapshot, rfl⟩ := finished
  obtain ⟨rfl, rfl⟩ := (ends_tier stages.holds.validators sound.validators).mp read
  have founds : ∀ {after : Scratch Key Value}, Ends ask
      (if base.validators = [] then pure () else stageGenerationSnapshot genesisGeneration base.validators [])
      { m with staged := m.staged.stage .generation (counterFormat.write genesisGeneration) } () after →
      after.staged.get = founded base := by
    intro after ends
    funext key
    have frame : ∀ generation, m.staged.get (.generationSet generation) = none := fun generation =>
      stages.frame _ (by simp) (by simp)
    split at ends
    · rename_i none
      obtain ⟨-, rfl⟩ := ends_pure.mp ends
      cases key with
      | validators => exact stages.holds.validators
      | residents => exact stages.holds.residents
      | generation => simp [founded]
      | generationSet generation => simp [founded, none, frame]
    · rename_i seated
      simp only [stageGenerationSnapshot, ends_bind, ends_refuseIf, ends_stage] at ends
      obtain ⟨_, _, ⟨-, rfl⟩, rfl⟩ := ends
      cases key with
      | validators => exact stages.holds.validators
      | residents => exact stages.holds.residents
      | generation => simp [founded]
      | generationSet generation =>
        by_cases zero : generation = genesisGeneration
        · subst zero
          simp [founded, seated, snapshotRecord, empty]
        · simp [founded, zero, frame]
  have store : commit _ = .new (founded base) := congrArg new (founds snapshot)
  have keeps := keeps_founded sound
  have tiersOf_eq : tiersOf (founded base) = base := keeps.holds.tiersOf_eq sound
  refine ⟨base, ?_⟩
  rw [store]
  rw [show (new (founded base)).store = founded base from rfl, tiersOf_eq]
  exact keeps

end genesis

/-! ## Every reachable state -/

section runs

variable {V : Valset} {staged : StagedStore Key Value} {history : List Tiers} {base now : Tiers}

theorem Keeps.committed_eq (keeps : Keeps staged history base now) : tiersOf staged.store = base :=
  keeps.holds.tiersOf_eq keeps.sound

theorem Keeps.staged_eq (keeps : Keeps staged history base now) : tiersOf staged.get = now :=
  keeps.stagedHolds.tiersOf_eq keeps.stagedSound

/-- What a committed block leaves, in terms of what it changed. -/
theorem Keeps.commits (keeps : Keeps staged history base now) {ask : (q : Ask) → Answer q}
    {s : Scratch Key Value} (ends : Ends ask commitBlock ⟨staged, default⟩ () s) :
    tiersOf s.staged.store = now ∧ (now = base → Keeps s.staged history base base) ∧
      (now ≠ base → Keeps s.staged (history ++ [now]) now now) := by
  rcases keeps.ends_commitBlock ends with ⟨same, left⟩ | ⟨changed, bounded, left⟩
  · have kept : Keeps s.staged history base base := left ▸ keeps.abort
    exact ⟨kept.committed_eq.trans same.symm, fun _ => kept, fun changed => absurd same changed⟩
  · have kept : Keeps s.staged (history ++ [now]) now now := left ▸ keeps.advance bounded
    exact ⟨kept.committed_eq, fun same => absurd same changed, fun _ => kept⟩

/-- **Every reachable state keeps the invariant.** -/
theorem Reachable.invariant (reachable : Reachable V staged history) :
    ∃ base now, Keeps staged history base now := by
  induction reachable with
  | genesis ends =>
    obtain ⟨base, keeps⟩ := ends_initialise ends
    exact ⟨base, base, keeps⟩
  | call call _ ih =>
    obtain ⟨base, now, keeps⟩ := ih
    obtain ⟨now', keeps'⟩ := keeps.call call
    exact ⟨base, now', keeps'⟩
  | changes _ ends changed ih =>
    obtain ⟨base, now, keeps⟩ := ih
    obtain ⟨tiers, -, advances⟩ := keeps.commits ends
    rw [keeps.committed_eq, tiers] at changed
    rw [tiers]
    refine ⟨now, now, advances ?_⟩
    rintro rfl
    exact changed ⟨fun _ => Iff.rfl, fun _ => Iff.rfl⟩
  | stays _ ends same ih =>
    obtain ⟨base, now, keeps⟩ := ih
    obtain ⟨tiers, stays, -⟩ := keeps.commits ends
    rw [keeps.committed_eq, tiers] at same
    exact ⟨base, base, stays (same.eq keeps.sound keeps.stagedSound).symm⟩
  | abort _ ends ih =>
    obtain ⟨base, now, keeps⟩ := ih
    obtain rfl := ends_discard.mp ends
    exact ⟨base, base, keeps.abort⟩

/-- **The validator set and its generation window**, in every state that a genesis and any blocks of
operations lead to:

* both tiers are strictly sorted, within the cap and apart, as committed and as staged;
* the validator tier is not empty any more once it was not;
* the newest generation is the committed one, and the retained snapshots are those of the last
  generations, each as it was committed;
* a block's commit fails only if the counter is exhausted; it advances the counter by one if the
  membership changed, and otherwise leaves every record as it was;
* what it commits depends on the membership it ends with alone. -/
theorem reachable_keeps (reachable : Reachable V staged history) :
    (tiersOf staged.store).Sound ∧ (tiersOf staged.get).Sound ∧
    ((tiersOf staged.store).validators ≠ [] → (tiersOf staged.get).validators ≠ []) ∧
    (∀ (i j : Nat) (earlier later : Tiers), history[i]? = some earlier → history[j]? = some later → i ≤ j →
      earlier.validators ≠ [] → later.validators ≠ []) ∧
    history.getLast? = some (tiersOf staged.store) ∧
    generationOf (staged.store .generation) = .ok (history.length - 1) ∧
    (∀ generation, staged.store (.generationSet generation)
      = (retained history generation).map snapshotRecord) ∧
    (∀ ask, history.length ≤ u64Max → ∃ s, Ends ask commitBlock ⟨staged, default⟩ () s) ∧
    (∀ ask s, Ends ask commitBlock ⟨staged, default⟩ () s →
      tiersOf s.staged.store = tiersOf staged.get ∧
      ((tiersOf staged.store).SameMembers (tiersOf staged.get) → s.staged.store = staged.store) ∧
      (¬ (tiersOf staged.store).SameMembers (tiersOf staged.get) →
        generationOf (s.staged.store .generation) = .ok (history.length - 1 + 1))) ∧
    ∀ staged' history', Reachable V staged' history' → staged'.store = staged.store →
      (tiersOf staged'.get).SameMembers (tiersOf staged.get) → ∀ ask ask' s s',
      Ends ask commitBlock ⟨staged, default⟩ () s →
      Ends ask' commitBlock ⟨staged', default⟩ () s' → s'.staged.store = s.staged.store := by
  obtain ⟨base, now, keeps⟩ := reachable.invariant
  rw [keeps.committed_eq, keeps.staged_eq]
  have sameMembers : base.SameMembers now ↔ now = base :=
    ⟨fun same => (same.eq keeps.sound keeps.stagedSound).symm,
      fun same => same ▸ ⟨fun _ => Iff.rfl, fun _ => Iff.rfl⟩⟩
  refine ⟨keeps.sound, keeps.stagedSound, keeps.seated, keeps.lasting, keeps.newest,
    keeps.generation_committed, keeps.window, ?_, ?_, ?_⟩
  · exact fun ask bounded => keeps.commitBlock_ends bounded
  · intro ask s ends
    refine ⟨(keeps.commits ends).1, fun same => ?_, fun changed => ?_⟩
    · rcases keeps.ends_commitBlock ends with ⟨-, left⟩ | ⟨changed, -⟩
      · rw [left]
        rfl
      · exact absurd (sameMembers.mp same) changed
    · have kept := (keeps.commits ends).2.2 (fun same => changed (sameMembers.mpr same))
      rw [kept.generation_committed, List.length_append, List.length_singleton, Nat.add_sub_cancel,
        Nat.sub_add_cancel keeps.length_pos]
  · intro staged' history' reachable' store members ask ask' s s' ends ends'
    obtain ⟨base', now', keeps'⟩ := reachable'.invariant
    rw [keeps'.staged_eq] at members
    obtain rfl := members.eq keeps'.stagedSound keeps.stagedSound
    obtain rfl : base' = base := by rw [← keeps'.committed_eq, store, keeps.committed_eq]
    have count : history'.length - 1 = history.length - 1 := by
      have read := keeps'.generation_committed
      rw [store, keeps.generation_committed] at read
      exact (Except.ok.inj read).symm
    have length : history'.length = history.length := by
      have positive := keeps.length_pos
      have positive' := keeps'.length_pos
      omega
    rcases keeps.ends_commitBlock ends with ⟨same, left⟩ | ⟨changed, -, left⟩ <;>
      rcases keeps'.ends_commitBlock ends' with ⟨same', left'⟩ | ⟨changed', -, left'⟩
    · rw [left, left', store]
    · exact absurd same changed'
    · exact absurd same' changed
    · rw [left, left', store, length]

end runs

/-! ## A sample -/

/-- Operations under a one-byte tag. -/
def taggedMsg : Codec ValsetMsg where
  encode
    | .join key => 0 :: key
    | .leave key => 1 :: key
    | .grant key => 2 :: key
    | .revoke key => 3 :: key
  decode
    | 0 :: key => .ok (.join key)
    | 1 :: key => .ok (.leave key)
    | 2 :: key => .ok (.grant key)
    | 3 :: key => .ok (.revoke key)
    | _ => .error "no such operation"
  debug _ := "message"

/-- A validator set that takes any bytes of the right width for a key. -/
def openValset : Valset := ⟨"valset", "governance", blankWire, taggedMsg, .ok⟩

/-- The key of 32 equal bytes. -/
def sampleKey (byte : UInt8) : Bytes := List.replicate 32 byte

/-- Siblings that answer nothing. -/
def noSiblings : (q : Ask) → Answer q
  | .query _ _ => .error (.module "no sibling")
  | .root _ => none

/-- A system call that seats a key. -/
def seatCall (key : Bytes) : Invocation Msg where
  ask := noSiblings
  env := { (default : Env) with origin := .system }
  msg := ⟨"valset", taggedMsg.encode (.join key)⟩

/-- What a handler leaves. -/
def left (h : Op Unit) (staged : StagedStore Key Value) : Scratch Key Value :=
  ((h ⟨staged, default⟩).eval noSiblings).2

theorem ends_left {h : Op Unit} {staged : StagedStore Key Value}
    (accepted : ((h ⟨staged, default⟩).eval noSiblings).1 = .ok ()) :
    Ends noSiblings h ⟨staged, default⟩ () (left h staged) :=
  Prod.ext accepted rfl

/-- One founding validator. -/
def foundedBy (key : Bytes) : StagedStore Key Value := (left (initialise [key]) (.new fun _ => none)).staged

/-- A second validator, seated in the first block. -/
def seatedBy (key other : Bytes) : StagedStore Key Value :=
  (left commitBlock ((seatCall other).settle openValset.execute (foundedBy key))).staged

theorem reachable_keeps_sample : ∃ history, Reachable openValset (seatedBy (sampleKey 1) (sampleKey 3)) history ∧
    (tiersOf (seatedBy (sampleKey 1) (sampleKey 3)).store).validators = [sampleKey 1, sampleKey 3] ∧
    generationOf ((seatedBy (sampleKey 1) (sampleKey 3)).store .generation) = .ok 1 := by
  have founded : Reachable openValset (foundedBy (sampleKey 1)) _ :=
    .genesis (ends_left (by decide +kernel))
  have block := Reachable.changes (founded.call (seatCall (sampleKey 3)))
    (ends_left (by decide +kernel))
    (fun same => absurd ((same.1 (sampleKey 3)).mpr (by decide +kernel)) (by decide +kernel))
  obtain ⟨-, -, -, -, -, counter, -⟩ := reachable_keeps block
  exact ⟨_, block, by decide +kernel, counter⟩

end Ducktape.Valset
