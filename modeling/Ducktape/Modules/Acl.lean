import Std.Data.ExtTreeMap
import Ducktape.Modules.Wire
import Ducktape.Sdk.Handler

/-! # The submit-policy table

Which standing a target module requires of an external submitter. The table is one record, absent
when it is empty; a missing entry falls back to the wildcard and then to open. Only governance and
the system write it. -/

namespace Ducktape

open Lib Handler

namespace Acl

def maxPolicyEntries : Nat := 256
def maxTargetLen : Nat := 64
def wildcardTarget : String := "*"

/-- The policy entries, by target. -/
abbrev Table := Std.ExtTreeMap String Standing

inductive Key
  | policy
  deriving DecidableEq

abbrev Value : Key → Type
  | .policy => Table

abbrev Store := Records Key Value

abbrev Op (α : Type) := Handler Key Value α

/-- The staged-over-committed table. -/
def table (s : Store) : Table := (s .policy).getD ∅

/-- The effective standing: the exact entry, else the wildcard's, else none, which is open. -/
def policyIn (entries : Table) (target : String) : Option Standing :=
  match entries[target]? with
  | some standing => some standing
  | none => entries[wildcardTarget]?

def policyFor (s : Store) (target : String) : Option Standing := policyIn (table s) target

end Acl

/-- The module's wiring. -/
structure Acl where
  id : ModuleId
  /-- The one module whose follow-ups may change the table. -/
  governanceId : ModuleId
  wire : Wire

namespace Acl

/-- Stage the record; an empty table is an absent one. -/
def storeTable (entries : Table) : Op Unit :=
  if entries.isEmpty then delete .policy else stage .policy entries

/-- The table after an entry was set or cleared; `none` where nothing is staged. -/
def updated (entries : Table) (target : String) (standing : Option Standing) :
    Except Error (Option Table) :=
  match entries[target]?, standing with
  | some current, some wanted =>
    if current = wanted then .ok none else .ok (some (entries.insert target wanted))
  | some _, none => .ok (some (entries.erase target))
  | none, none => .ok none
  | none, some wanted =>
    if entries.size ≥ maxPolicyEntries then
      .error (.module s!"acl policy cap reached ({maxPolicyEntries})")
    else .ok (some (entries.insert target wanted))

def handleSetPolicy (target : String) (standing : Option Standing) : Op Unit := do
  refuseIf (¬ (target ≠ "" ∧ trim target = target))
    "acl target must be a non-empty, untrimmed module id"
  refuseIf (target.utf8ByteSize > maxTargetLen) s!"acl target exceeds {maxTargetLen} bytes"
  let s ← view
  match ← ofExcept (updated (table s) target standing) with
  | none => pure ()
  | some entries => storeTable entries

variable (A : Acl)

/-- Policy changes come from governance or from the system. -/
def authorize (env : Env) : Except Error Unit :=
  match env.origin with
  | .system => .ok ()
  | .module id =>
    if id = A.governanceId then .ok ()
    else
      let (gate, got) := (A.governanceId, env.origin.debug)
      .error (.module s!"acl policy changes only via governance (the {gate} module), got {got}")
  | .external _ | .program _ =>
    let (gate, got) := (A.governanceId, env.origin.debug)
    .error (.module s!"acl policy changes only via governance (the {gate} module), got {got}")

def execute (env : Env) (msg : Msg) : Op Unit := do
  ofExcept (A.authorize env)
  match A.wire.aclMsg.decode msg.payload with
  | .error text => fail (.module text)
  | .ok (.setPolicy target standing) => handleSetPolicy target standing

end Acl

end Ducktape
