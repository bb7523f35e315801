import Std.Data.String.ToNat
import Ducktape.Modules.SagaExact
import Ducktape.Modules.RegistryRuns

/-! # Saga namespaces

An origin owns the saga ids that start with its actor string and the separator. The actor strings of keys,
accounts and the system are apart from each other; a module's is its id, which the registry's admission takes
as it is. `namespaces_disjoint_iff` says for which origins the namespaces are disjoint, and
`reserved_id_admitted` that the registry admits a module for which they are not. -/

namespace Ducktape

open Lib Handler Modules String List

/-- `namespaced_id`: the id of an origin's local one. -/
def namespacedId (origin : Origin) (localId : String) : SagaId :=
  String.ofList (origin.actorString.toList ++ [keySep] ++ localId.toList)

namespace SagaModule

/-! ## Actor strings -/

theorem hexDigit_inj : ∀ a < 16, ∀ b < 16, hexDigit a = hexDigit b → a = b := by decide

theorem hexDigit_ne_keySep : ∀ a < 16, hexDigit a ≠ keySep := by decide

theorem hexLower_injective : Function.Injective hexLower := by
  intro first second same
  have chars := ofList_injective same
  induction first generalizing second with
  | nil =>
    cases second with
    | nil => rfl
    | cons byte rest => cases chars
  | cons byte first ih =>
    cases second with
    | nil => cases chars
    | cons byte' second =>
      simp only [flatMap_cons, cons_append, cons.injEq] at chars
      obtain ⟨high, low, rest⟩ := chars
      have small := byte.toNat_lt
      have small' := byte'.toNat_lt
      have high := hexDigit_inj _ (by omega) _ (by omega) high
      have low := hexDigit_inj _ (by omega) _ (by omega) low
      have bytes : byte = byte' := UInt8.toNat_inj.mp (by omega)
      rw [bytes, ih (congrArg ofList rest) rest]

/-- The origin is not a module. -/
def IsPlain : Origin → Prop
  | .module _ => False
  | .external _ | .program _ | .system => True

theorem toList_external (bytes : Bytes) : (Origin.external bytes).actorString.toList =
    "ext:".toList ++ bytes.flatMap fun b => [hexDigit (b.toNat / 16), hexDigit (b.toNat % 16)] := by
  simp [Origin.actorString, hexLower]

theorem toList_program (account : AccountNumber) :
    (Origin.program account).actorString.toList = "acct:".toList ++ Nat.toDigits 10 account := by
  simp [Origin.actorString, toString]

variable {origin : Origin}

theorem keySep_not_mem (plain : IsPlain origin) : keySep ∉ origin.actorString.toList := by
  intro mem
  cases origin with
  | module id => exact plain
  | system => revert mem; decide
  | external bytes =>
    rw [toList_external, mem_append, mem_flatMap] at mem
    obtain fixed | ⟨byte, -, digit⟩ := mem
    · revert fixed
      decide
    have small := byte.toNat_lt
    obtain high | low : keySep = _ ∨ keySep = _ := by simpa using digit
    · exact hexDigit_ne_keySep _ (by omega) high.symm
    · exact hexDigit_ne_keySep _ (by omega) low.symm
  | program account =>
    rw [toList_program, mem_append] at mem
    obtain fixed | digit := mem
    · revert fixed
      decide
    · have := Nat.isDigit_of_mem_toDigits (by decide) (by decide) digit
      revert this
      decide

variable {first second : Origin}

theorem actorString_inj (plain : IsPlain first) (plain' : IsPlain second)
    (same : first.actorString = second.actorString) : first = second := by
  have chars := congrArg toList same
  cases first with
  | module id => exact plain.elim
  | external bytes =>
    cases second with
    | module id => exact plain'.elim
    | external bytes' => rw [hexLower_injective (String.append_right_inj _ |>.mp same)]
    | program account => rw [toList_external, toList_program] at chars; cases chars
    | system => rw [toList_external] at chars; cases chars
  | program account =>
    cases second with
    | module id => exact plain'.elim
    | external bytes => rw [toList_external, toList_program] at chars; cases chars
    | program account' =>
      rw [toList_program, toList_program] at chars
      have digits := congrArg ofList (append_cancel_left chars)
      rw [Nat.repr_injective digits]
    | system => rw [toList_program] at chars; cases chars
  | system =>
    cases second with
    | module id => exact plain'.elim
    | external bytes => rw [toList_external] at chars; cases chars
    | program account => rw [toList_program] at chars; cases chars
    | system => rfl

/-! ## Namespaces -/

/-- The id is the actor string, or lies in its namespace. -/
def Within (actor id : String) : Prop := id = actor ∨ (actor.toList ++ [keySep]) <+: id.toList

/-- The namespaces of two different origins are apart: a module's id is not within another origin's actor string,
and of two modules neither is within the other. -/
def Apart : Origin → Origin → Prop
  | .module id, .module id' => ¬ Within id id' ∧ ¬ Within id' id
  | .module id, other => ¬ Within other.actorString id
  | other, .module id => ¬ Within other.actorString id
  | _, _ => True

theorem ownsId_iff {id : SagaId} :
    ownsId origin id = true ↔ origin.actorString.toList ++ [keySep] <+: id.toList := by
  rw [ownsId, isPrefixOf_iff_prefix]

theorem owns_namespacedId (origin : Origin) (localId : String) : ownsId origin (namespacedId origin localId) = true := by
  rw [ownsId_iff, namespacedId, toList_ofList]
  exact prefix_append ..

theorem prefix_iff_within {actor id : String} :
    actor.toList ++ [keySep] <+: id.toList ++ [keySep] ↔ Within actor id := by
  rw [prefix_concat_iff, Within, append_cancel_right_eq, toList_inj, eq_comm]

/-- Two namespaces meet exactly when one actor string is within the other. -/
theorem meet_iff : (∃ id, ownsId first id = true ∧ ownsId second id = true) ↔
      Within first.actorString second.actorString ∨ Within second.actorString first.actorString := by
  simp only [ownsId_iff, ← prefix_iff_within]
  constructor
  · rintro ⟨id, one, two⟩
    exact prefix_or_prefix_of_prefix one two
  · rintro (below | below)
    · exact ⟨ofList (second.actorString.toList ++ [keySep]), by simpa using below, by simp⟩
    · exact ⟨ofList (first.actorString.toList ++ [keySep]), by simp, by simpa using below⟩

theorem not_within_of_plain {actor : String} (plain : IsPlain origin)
    (other : origin.actorString ≠ actor) : ¬ Within actor origin.actorString := by
  rintro (same | ⟨rest, inside⟩)
  · exact other same
  · refine keySep_not_mem plain ?_
    rw [← inside]
    simp

/-- Against an origin that is not a module only one side is possible. -/
theorem within_plain {id : String} (plain : IsPlain origin) :
    Within origin.actorString id ↔ Within id origin.actorString ∨ Within origin.actorString id := by
  refine ⟨.inr, fun either => either.elim (fun within => ?_) fun within => within⟩
  by_cases same : origin.actorString = id
  · exact .inl same.symm
  · exact absurd within (not_within_of_plain plain same)

theorem apart_iff (different : first ≠ second) : Apart first second ↔
      ¬ (Within first.actorString second.actorString ∨ Within second.actorString first.actorString) := by
  by_cases plain : IsPlain first
  · by_cases plain' : IsPlain second
    · have open_ : Apart first second := by
        cases first <;> cases second <;> first | exact plain.elim | exact plain'.elim | trivial
      have apart : first.actorString ≠ second.actorString := fun same =>
        different (actorString_inj plain plain' same)
      exact ⟨fun _ => not_or.mpr ⟨not_within_of_plain plain' apart.symm, not_within_of_plain plain apart⟩,
        fun _ => open_⟩
    · cases second with
      | module id =>
        rw [or_comm, ← within_plain plain]
        cases first <;> first | exact plain.elim | rfl
      | external _ | program _ | system => exact absurd trivial plain'
  · cases first with
    | module id =>
      by_cases plain' : IsPlain second
      · rw [← within_plain plain']
        cases second <;> first | exact plain'.elim | rfl
      · cases second with
        | module id' => exact not_or.symm
        | external _ | program _ | system => exact absurd trivial plain'
    | external _ | program _ | system => exact absurd trivial plain

/-! ## Foreign sagas -/

theorem sagaOrigin_inj {stored : SagaOrigin} (one : sagaOrigin first = .ok stored)
    (two : sagaOrigin second = .ok stored) : first = second := by
  cases first <;> cases second <;> simp_all [sagaOrigin] <;> simp_all [← one]

/-- A cancel or prune by another origin leaves a saga as it is, whatever its id: both compare the stored origin. -/
theorem handle_foreign {S : SagaModule} {ask : (q : Ask) → Answer q} {env : Env} {msg : SagaMsg}
    {scratch after : Scratch Key Value} {id : SagaId} {saga : Saga}
    (foreign : sagaOrigin env.origin ≠ .ok saga.origin) (found : record scratch.staged.get id = some saga)
    (kind : (∃ named, msg = .cancel named) ∨ ∃ ids, msg = .prune ids)
    (ends : Ends ask (S.handle env msg) scratch () after) : record after.staged.get id = some saga := by
  obtain ⟨named, rfl⟩ | ⟨ids, rfl⟩ := kind
  · obtain ⟨calls, -, spares⟩ := did_cancel ends
    exact spares id saga found foreign
  · simp only [handle, handlePrune, ends_bind, ends_ofExcept] at ends
    obtain ⟨origin, _, ⟨stamped, rfl⟩, ends⟩ := ends
    exact (did_pruneAll ends).2 id saga found (stamped ▸ foreign)

variable (S : SagaModule)

/-- **The namespaces of two origins are disjoint exactly when they are apart**: no id is owned by both, none is
derived by both, no trigger of one is accepted for an id of the other, and no cancel or prune of one changes a
saga that the other opened. The last part never fails, since both compare the origin the saga was stored with. -/
theorem namespaces_disjoint_iff {first second : Origin} (different : first ≠ second) :
    ((∀ id, ¬ (ownsId first id = true ∧ ownsId second id = true)) ∧
      (∀ localId localId', namespacedId first localId ≠ namespacedId second localId') ∧
      (∀ (ask : (q : Ask) → Answer q) (env : Env) (sagaId : SagaId) (spec : Bytes) (replyTo : Option ModuleId)
        (replyPayload : Bytes) (deadline : Option Nat) (maxAttempts : Nat) (leaseViews : Option Nat)
        (capability : Option String) (demands : List (String × Nat)) (pinned : Option Bytes)
        (scratch after : Scratch Key Value),
        env.origin = second →
        Ends ask (S.handle env (.trigger sagaId spec replyTo replyPayload deadline maxAttempts leaseViews capability
          demands pinned)) scratch () after → ownsId first sagaId = false) ∧
      ∀ (ask : (q : Ask) → Answer q) (env : Env) (msg : SagaMsg) (id : SagaId) (saga : Saga)
        (scratch after : Scratch Key Value),
        env.origin = second → sagaOrigin first = .ok saga.origin → record scratch.staged.get id = some saga →
        ((∃ named, msg = .cancel named) ∨ ∃ ids, msg = .prune ids) → Ends ask (S.handle env msg) scratch () after →
        record after.staged.get id = some saga) ↔
      Apart first second := by
  rw [apart_iff different, ← meet_iff]
  constructor
  · rintro ⟨disjoint, -⟩ ⟨id, both⟩
    exact disjoint id both
  · intro disjoint
    refine ⟨fun id both => disjoint ⟨id, both⟩, fun localId localId' same => disjoint ?_, ?_, ?_⟩
    · exact ⟨_, owns_namespacedId first localId, same ▸ owns_namespacedId second localId'⟩
    · intro ask env sagaId spec replyTo replyPayload deadline maxAttempts leaseViews capability demands pinned scratch
        after origin ends
      simp only [handle, handleTrigger, ends_bind, ends_refuseIf, not_not, origin] at ends
      obtain ⟨_, _, ⟨owned, -⟩, -⟩ := ends
      exact Bool.eq_false_iff.mpr fun other => disjoint ⟨sagaId, other, owned⟩
    · intro ask env msg id saga scratch after origin opened found kind ends
      have foreign : sagaOrigin env.origin ≠ .ok saga.origin := fun stamped =>
        different (sagaOrigin_inj opened (origin ▸ stamped))
      exact handle_foreign foreign found kind ends

/-- A key and a module whose namespaces are apart. -/
theorem namespaces_disjoint_key :
    Apart (.external [1]) (.module "runs") ∧
      namespacedId (.external [1]) "x" ≠ namespacedId (.module "runs") "x" := by
  have apart : Apart (.external [1]) (.module "runs") := by
    rintro (same | below)
    · revert same
      decide
    · revert below
      decide
  have different : Origin.external [1] ≠ .module "runs" := nofun
  obtain ⟨-, derived, -⟩ := (namespaces_disjoint_iff jobLedger different).mpr apart
  exact ⟨apart, derived "x" "x"⟩

/-- The registry admits a module named as the system's actor string, and an id of the system is then its own. -/
theorem reserved_id_admitted :
    soleRegistry.Reachable foundedScratch.staged.store ∧
      ((callAt 1 .system (.scheduleRegister "admit" "system" .module 9 (sampleHash 2) [])).accepted
        soleRegistry.handleMsg (.new foundedScratch.staged.store)).isSome = true ∧
      Origin.module "system" ≠ .system ∧
      namespacedId (.module "system") "x" = namespacedId .system "x" ∧
      ownsId .system (namespacedId (.module "system") "x") = true := by
  refine ⟨Modules.reachable_founded, by decide +kernel, nofun, rfl, owns_namespacedId .system "x"⟩

end SagaModule

end Ducktape
