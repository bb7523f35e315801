import Mathlib.Data.List.Lex
import Ducktape.Lib.Borsh
import Ducktape.Lib.SortedSet
import Ducktape.Modules.Wire
import Ducktape.Sdk.Handler

/-! # The validator set

Two tiers of member keys, validators and residents, each one record: the strictly sorted keys, absent
when there are none. Membership changes come from governance. A committed block that changed membership
advances a generation counter and keeps a snapshot of both tiers; the last few snapshots are retained.

A panic of the source is a failure here: either way the node commits nothing. -/

namespace Ducktape

open Lib Lib.Borsh Handler

/-- Byte strings are ordered as the source orders them, lexicographically. -/
instance : IsStrictTotalOrder Bytes (· < ·) where
  toTrichotomous := inferInstance
  toIsStrictOrder := { toIrrefl := inferInstance, toIsTrans := inferInstance }

namespace Valset

def keyLen : Nat := 32
def maxTierRecordBytes : Nat := 512 * 1024
def retainedGenerations : Nat := 4
def genesisGeneration : Nat := 0

inductive Key
  | validators
  | residents
  | generation
  /-- One generation's snapshot. -/
  | generationSet (generation : Nat)
  deriving DecidableEq

/-- Records are stored encoded. -/
abbrev Value : Key → Type := fun _ => Bytes

abbrev Store := Records Key Value

abbrev Op (α : Type) := Handler Key Value α

def tierFormat : Format (List Bytes) := Format.bytes.vec
def counterFormat : Format Nat := Format.uint 8
def snapshotFormat : Format (List Bytes × List Bytes) := tierFormat.pair tierFormat

/-- A stored record, decoded. -/
def decodeRecord {α : Type} (format : Format α) (bytes : Bytes) : Except Error α :=
  match format.fromSlice bytes with
  | .ok a => .ok a
  | .error text => .error (.module text)

/-- The keys of a tier record; an absent one has none. -/
def tierOf : Option Bytes → Except Error (List Bytes)
  | none => .ok []
  | some bytes => decodeRecord tierFormat bytes

/-- The counter record; an absent one reads as the genesis. -/
def generationOf : Option Bytes → Except Error Nat
  | none => .ok genesisGeneration
  | some bytes => decodeRecord counterFormat bytes

/-! ## Records -/

/-- `tier`: a tier, staged over committed. -/
def tier (key : Key) : Op (List Bytes) := do
  let s ← view
  ofExcept (tierOf (s key))

def validators : Op (List Bytes) := tier .validators

def residents : Op (List Bytes) := tier .residents

/-- `store_tier`: an empty tier is an absent record. -/
def storeTier (key : Key) (tier : List Bytes) : Op Unit :=
  if tier = [] then delete key
  else do
    let bytes := tierFormat.write tier
    let len := bytes.length
    refuseIf (len > maxTierRecordBytes)
      s!"tier record too large: {len} > {maxTierRecordBytes} bytes"
    stage key bytes

/-- `require_capacity`. -/
def requireCapacity (tier : List Bytes) (what : String) : Op Unit :=
  refuseIf (tier.length ≥ maxMembers) s!"{what} cap reached ({maxMembers})"

/-- Put a member in its place in a tier, unless it is there. -/
def addMember (key : Key) (what : String) (member : Bytes) : Op Unit := do
  let tier ← tier key
  match search (· < ·) member tier with
  | .ok _ => pure ()
  | .error position => do
      requireCapacity tier what
      storeTier key (tier.insertIdx position member)

/-- Take a member out of a tier, if it is there. -/
def removeMember (key : Key) (member : Bytes) : Op Unit := do
  let tier ← tier key
  match search (· < ·) member tier with
  | .ok position => storeTier key (tier.eraseIdx position)
  | .error _ => pure ()

/-- `generation`. -/
def generation : Op Nat := do
  let s ← view
  ofExcept (generationOf (s .generation))

def stageGenerationCounter (generation : Nat) : Op Unit :=
  stage .generation (counterFormat.write generation)

def stageGenerationSnapshot (generation : Nat) (validators residents : List Bytes) : Op Unit := do
  let bytes := snapshotFormat.write (validators, residents)
  let len := bytes.length
  refuseIf (len > maxTierRecordBytes)
    s!"generation snapshot too large: {len} > {maxTierRecordBytes} bytes"
  stage (.generationSet generation) bytes

/-- `staged_membership_changed`: do the staged tiers differ from the committed ones? -/
def stagedMembershipChanged : Op Bool := do
  let s ← view
  let committed ← committed
  pure (decide (s .validators ≠ committed .validators) || decide (s .residents ≠ committed .residents))

/-- `advance_generation`. -/
def advanceGeneration : Op Unit := do
  let current ← generation
  let next ← require (if current + 1 ≤ u64Max then some (current + 1) else none)
    "the membership generation counter overflowed u64"
  stageGenerationCounter next
  let validators ← validators
  let residents ← residents
  stageGenerationSnapshot next validators residents
  if next < retainedGenerations then pure ()
  else do
    let s ← view
    let stale := Key.generationSet (next - retainedGenerations)
    if (s stale).isSome then delete stale else pure ()

/-- The window's snapshots, from `generation` on. -/
def windowFrom (s : Store) : Nat → Nat → Except Error (List GenerationSet)
  | _, 0 => .ok []
  | generation, count + 1 => do
      let rest ← windowFrom s (generation + 1) count
      match s (.generationSet generation) with
      | none => .ok rest
      | some bytes =>
        let (validators, residents) ← decodeRecord snapshotFormat bytes
        .ok (⟨generation, validators, residents⟩ :: rest)

/-- `mesh_window`: the retained snapshots, ascending. -/
def meshWindow : Op (List GenerationSet) := do
  let latest ← generation
  let first := latest - (retainedGenerations - 1)
  let s ← view
  ofExcept (windowFrom s first (latest + 1 - first))

/-! ## Block boundaries -/

/-- `commit_block`. -/
def commitBlock : Op Unit := do
  let changed ← stagedMembershipChanged
  (if changed then advanceGeneration else pure ())
  publish

/-- `abort_block`. -/
def abortBlock : Op Unit := Handler.discard

/-! ## Genesis -/

/-- `seed`: stage one founding validator; a key of another width is a wiring bug. -/
def seed (key : Bytes) : Op Unit := do
  refuseIf (key.length ≠ keyLen) s!"genesis validator key must be {keyLen} bytes"
  addMember .validators "validator" key

/-- `finish_seed`: publish the seed, unless the store was seeded before. -/
def finishSeed : Op Unit := do
  let committed ← committed
  if (committed .generation).isSome then Handler.discard
  else do
    let seeded ← validators
    stageGenerationCounter genesisGeneration
    (if seeded = [] then pure () else stageGenerationSnapshot genesisGeneration seeded [])
    publish

/-- The seeds of the genesis, in order. -/
def seedAll : List Bytes → Op Unit
  | [] => pure ()
  | key :: keys => do
      refuseIf (key.length ≠ keyLen) "initial validator key must be 32 bytes"
      seed key
      seedAll keys

/-- The genesis, with the validators its parameters name. -/
def initialise (keys : List Bytes) : Op Unit := do
  seedAll keys
  finishSeed

end Valset

/-- The module's wiring and the third-party code it rests on. -/
structure Valset where
  id : ModuleId
  /-- The one module whose follow-ups may change membership. -/
  governanceId : ModuleId
  wire : Wire
  valsetMsg : Codec ValsetMsg
  /-- `PublicKey::decode`: the key, or why the bytes are none. -/
  decodeKey : Bytes → Except String Bytes

namespace Valset

variable (V : Valset)

/-! ## Membership operations -/

/-- `validate_key`. -/
def validateKey (key : Bytes) : Except Error Unit :=
  if key.length ≠ keyLen then
    let got := key.length
    .error (.module s!"invalid ed25519 public key: expected {keyLen} bytes, got {got}")
  else match V.decodeKey key with
    | .ok _ => .ok ()
    | .error text => .error (.module s!"invalid ed25519 public key: {text}")

/-- `handle_join`: a joining resident leaves the resident tier. -/
def handleJoin (key : Bytes) : Op Unit := do
  ofExcept (V.validateKey key)
  removeMember .residents key
  addMember .validators "validator" key

/-- `handle_leave`: the validator tier never goes empty. -/
def handleLeave (key : Bytes) : Op Unit := do
  let validators ← validators
  match search (· < ·) key validators with
  | .error _ => pure ()
  | .ok position => do
      refuseIf (validators.length = 1)
        "refusing to remove the last validator: the set must never be empty"
      storeTier .validators (validators.eraseIdx position)

/-- `handle_grant`. -/
def handleGrant (key : Bytes) : Op Unit := do
  ofExcept (V.validateKey key)
  let validators ← validators
  match search (· < ·) key validators with
  | .ok _ => fail (.module "key is a current validator — resident standing is the pre-promotion tier")
  | .error _ => addMember .residents "resident" key

/-- `handle_revoke`. -/
def handleRevoke (key : Bytes) : Op Unit := removeMember .residents key

/-- Membership changes come from governance or from the system. -/
def authorize (env : Env) : Except Error Unit :=
  let refusal : Error :=
    let (gate, got) := (V.governanceId, env.origin.debug)
    .module s!"valset membership changes only via governance (the {gate} module), got {got}"
  match env.origin with
  | .system => .ok ()
  | .module id => if id = V.governanceId then .ok () else .error refusal
  | .external _ | .program _ => .error refusal

/-- One decoded operation. -/
def handleMsg : ValsetMsg → Op Unit
  | .join key => V.handleJoin key
  | .leave key => handleLeave key
  | .grant key => V.handleGrant key
  | .revoke key => handleRevoke key

def execute (env : Env) (msg : Msg) : Op Unit := do
  ofExcept (V.authorize env)
  match V.valsetMsg.decode msg.payload with
  | .error text => fail (.module text)
  | .ok msg => V.handleMsg msg

/-- The read projection. -/
def query (request : Bytes) : Op Bytes :=
  match V.wire.valsetQuery.decode request with
  | .error text => fail (.module text)
  | .ok .validators => do
      let keys ← validators
      pure (V.wire.valsetReply.encode (.validators keys))
  | .ok .residents => do
      let keys ← residents
      pure (V.wire.valsetReply.encode (.residents keys))
  | .ok .meshWindow => do
      let window ← meshWindow
      pure (V.wire.valsetReply.encode (.meshWindow window))

end Valset

end Ducktape
