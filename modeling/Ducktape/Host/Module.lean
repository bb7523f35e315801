import Mathlib.Data.Finset.Card
import Ducktape.Lib.Interaction
import Ducktape.Sdk.Interface

/-! # Modules, the registry and routed reads

A module is its code: pure functions of its committed state `C` and of the overlay `O` a block has
staged over it. `execute`, `acknowledge` and `query` are interaction programs, since they may read
siblings through the host while they run; a commit folds the overlay into the committed state and
an abort starts over from a fresh overlay. A `Registry` is the host's set of modules, `Stages` what
each of them holds in the middle of a block.

`Registry.queryWith` routes a read of a module, nested reads included, with the host's cycle
check; its fuel is the number of registered modules, and `Registry.queryWith_fuel` shows that more
fuel changes nothing. -/

namespace Ducktape

open Lib

/-- A read a dispatch makes of a sibling through the host. -/
inductive Ask
  /-- A routed query of a module. -/
  | query (target : ModuleId) (request : Bytes)
  /-- A module's dispatch-start root. -/
  | root (target : ModuleId)
  deriving DecidableEq

/-- What the host answers. -/
abbrev Answer : Ask → Type
  | .query _ _ => Except Error Bytes
  | .root _ => Option StateRoot

/-- Module code: a computation that may read siblings through the host. -/
abbrev Guest (α : Type) := Prog Ask Answer α

/-- One routed query. -/
def Guest.query (target : ModuleId) (request : Bytes) : Guest (Except Error Bytes) :=
  Prog.perform (Ask.query target request)

/-- What a run of module code handed the host besides its staged writes: the emitted follow-ups and
events, and every `set_output` and `set_assigned` call in order. -/
structure Outputs where
  emitted : List Msg
  events : List Event
  outputs : List Bytes
  stamps : List Bytes
  deriving DecidableEq, Inhabited

/-- A module: functions of its committed state and its overlay. A run that fails still returns the
overlay it left behind. -/
structure Module (C O : Type) where
  /-- The overlay of a module that has staged nothing: what an abort restores. -/
  fresh : C → O
  /-- The authenticated root of the committed state. -/
  root : C → StateRoot
  /-- The hash of the component the module runs, for a hot-swappable module. -/
  codeHash : Option Bytes
  execute : C → O → Env → Msg → Guest (O × Except Error Outputs)
  acknowledge : C → O → Env → Ack → Guest (O × Except Error Outputs)
  query : C → O → Env → Bytes → Guest (Except Error Bytes)
  /-- The committed head of the module's outbound queue. -/
  pendingItems : C → Except Error (List PendingItem)
  /-- Publish the overlay. -/
  commit : C → O → Except Error C
  /-- Does the module commit to its own disk each block, rather than ride a checkpoint? -/
  blockDurable : Bool := false
  /-- The height of the last durable commit, persisted with it, where the module tracks one. -/
  durableCommitHeight : C → Option Nat := fun _ => none

/-- What one module holds: its committed state and the overlay staged over it. -/
structure Stage (C O : Type) where
  committed : C
  overlay : O

/-- What every module holds in the middle of a block. -/
abbrev Stages (C O : Type) := ModuleId → Stage C O

/-- The host's modules by id, in registry order. -/
structure Registry (C O : Type) where
  ids : List ModuleId
  code : ModuleId → Module C O
  nodup : ids.Nodup

namespace Registry

variable {C O : Type} (R : Registry C O)

/-- The stages at a block boundary: nothing staged over the committed states. -/
def boundary (committed : ModuleId → C) : Stages C O :=
  fun id => ⟨committed id, (R.code id).fresh (committed id)⟩

/-- A registered module's root. -/
def moduleRoot (σ : Stages C O) (id : ModuleId) : Option StateRoot :=
  if id ∈ R.ids then some ((R.code id).root (σ id).committed) else none

/-- `ReadOnlyQueryCtx`: answer `request` at the module `env.me`, routing nested reads to siblings
that are not already being queried. -/
def queryWith (σ : Stages C O) : Nat → Env → Finset ModuleId → Bytes → Except Error Bytes
  -- unreachable: every nested query makes one more registered module active
  | 0, env, _, _ => .error (.unknownModule env.me)
  | fuel + 1, env, active, request =>
    ((R.code env.me).query (σ env.me).committed (σ env.me).overlay env request).eval fun
      | .root target => R.moduleRoot σ target
      | .query target nested =>
        if target = env.me then .error .selfQuery
        else if target ∈ active then .error (.module s!"query cycle: {target}")
        else if target ∈ R.ids then
          queryWith σ fuel { env with me := target } (insert target active) nested
        else .error (.unknownModule target)

/-- The reads module code makes while it runs as a dispatch (`HostCtx`). -/
def dispatchAnswer (σ : Stages C O) (env : Env) : (q : Ask) → Answer q
  | .root target => R.moduleRoot σ target
  | .query target request =>
    if target = env.me then .error .selfQuery
    else if target ∈ R.ids then
      R.queryWith σ R.ids.length { env with me := target } {env.me, target} request
    else .error (.unknownModule target)

/-- `Host::query_as`: a read outside any dispatch, under the last committed clock. -/
def queryAs (σ : Stages C O) (clock : Nat × Nat) (origin : Origin) (target : ModuleId)
    (request : Bytes) : Except Error Bytes :=
  if target ∈ R.ids then
    R.queryWith σ R.ids.length ⟨clock.1, clock.2, origin, target, .direct⟩ {target} request
  else .error (.unknownModule target)

/-- The reads the host makes on a unit's behalf (`Host::query`, System origin). -/
def hostAnswer (σ : Stages C O) (clock : Nat × Nat) : (q : Ask) → Answer q
  | .root target => R.moduleRoot σ target
  | .query target request => R.queryAs σ clock .system target request

/-- Fuel beyond the modules a nested query can still reach changes no answer. -/
theorem queryWith_fuel (σ : Stages C O) (fuel : Nat) :
    ∀ env active request, (R.ids.toFinset \ active).card < fuel →
      R.queryWith σ (fuel + 1) env active request = R.queryWith σ fuel env active request := by
  induction fuel with
  | zero => intro env active request short; omega
  | succ fuel ih =>
    intro env active request short
    -- both sides run the same query; only the nested reads see the fuel
    have same : ∀ target nested, target ∈ R.ids → target ∉ active →
        R.queryWith σ (fuel + 1) { env with me := target } (insert target active) nested
          = R.queryWith σ fuel { env with me := target } (insert target active) nested := by
      intro target nested registered fresh
      have fewer : (R.ids.toFinset \ insert target active).card < (R.ids.toFinset \ active).card := by
        rw [Finset.sdiff_insert]
        exact Finset.card_erase_lt_of_mem (by simp [registered, fresh])
      exact ih _ _ _ (by omega)
    conv_lhs => rw [queryWith]
    conv_rhs => rw [queryWith]
    congr 1
    funext q
    cases q with
    | root target => rfl
    | query target nested =>
      refine ite_congr rfl (fun _ => rfl) fun _ => ?_
      by_cases cyclic : target ∈ active
      · rw [if_pos cyclic, if_pos cyclic]
      rw [if_neg cyclic, if_neg cyclic]
      exact ite_congr rfl (fun registered => same target nested registered cyclic) fun _ => rfl

end Registry

end Ducktape
