import Ducktape.Host.Units

/-! # Frames and batches

The ordered lane's wire forms. A frame is one signed op: a scheme tag, length-prefixed fields, and
the scheme's proof over them; `decodeFrameWithBlob` verifies it. A batch is an unsigned container of frames,
`varint(N)` and then `varint(len)` and the bytes of each member; the orderer orders batches, and a
block applies the members of one. A frame and a batch are both named by the hash of their bytes. -/

namespace Ducktape

/-- A frame's content address. -/
abbrev FrameId := Bytes

/-- The ways the ordered lane stops. -/
inductive NodeError
  | host (e : Error)
  /-- A node-local fault at the block boundary. -/
  | fatal (fault : FatalError)
  /-- The recovery sink failed to persist a record. -/
  | journal (text : String)
  /-- A block was delivered at a height this process has journaled already. -/
  | outOfOrder (height applied : Nat)
  /-- The block's module code is not resolvable yet: paused, not broken. -/
  | codeStalled (height applied : Nat) (reason : String)
  | notAParticipant
  deriving DecidableEq

/-- The hash and the signature schemes a frame is checked with. -/
structure FrameCrypto where
  sha256 : Bytes → Bytes
  pubkeyWellformed : KeyScheme → Bytes → Bool
  /-- `verify(origin, namespace, message, proof)`. -/
  verify : KeyScheme → Bytes → Bytes → Bytes → Bytes → Bool

/-- The signing domain of op frames. -/
def frameNs : Bytes := utf8 "ducktape:op-frame:v1"

/-- Hard cap on one encoded op frame. -/
def maxFrameBytes : Nat := 2 ^ 20 + 16 * 2 ^ 10

/-- The content address of encoded bytes. -/
def frameId (crypto : FrameCrypto) (bytes : Bytes) : FrameId := crypto.sha256 bytes

/-! ## Frames -/

def KeyScheme.fromTag (tag : UInt8) : Option KeyScheme :=
  if tag = 0 then some .ed25519
  else if tag = 1 then some .secp256k1
  else if tag = 2 then some .secp256r1
  else none

theorem KeyScheme.fromTag_tag (scheme : KeyScheme) : fromTag scheme.tag = some scheme := by
  cases scheme <;> decide

/-- Split off the first `n` bytes, if there are that many. -/
def splitAtChecked (n : Nat) (buf : Bytes) : Option (Bytes × Bytes) :=
  if n ≤ buf.length then some (buf.take n, buf.drop n) else none

/-- Read a little-endian `u64`. -/
def takeU64 (buf : Bytes) : Option (Nat × Bytes) := do
  let (head, rest) ← splitAtChecked 8 buf
  return (ofLe head, rest)

/-- Read a `u64` length and that many bytes. -/
def takeSlice (buf : Bytes) : Option (Bytes × Bytes) := do
  let (len, buf) ← takeU64 buf
  splitAtChecked len buf

/-- The signed part of a frame: after the payload, tag 0 for no required blob, tag 1 and its
digest. -/
def framePreimageWithBlob (scheme : KeyScheme) (origin : Bytes) (seq : Nat) (msg : Msg)
    (requiredBlob : Option Bytes) : Bytes :=
  scheme.tag :: u64le origin.length ++ origin ++ u64le seq ++ u64le (utf8 msg.target).length ++
    utf8 msg.target ++ u64le msg.payload.length ++ msg.payload ++
    match requiredBlob with
    | none => [0]
    | some digest => 1 :: digest

/-- A malformed frame. -/
def frameParseError : NodeError := .host (.module "frame does not parse")

/-- The fields of a frame, and where its proof starts. -/
structure FrameFields where
  scheme : KeyScheme
  origin : Bytes
  seq : Nat
  msg : Msg
  requiredBlob : Option Bytes
  proof : Bytes
  deriving DecidableEq

/-- The optional digest after the payload. -/
def takeBlob (buf : Bytes) : Option (Option Bytes × Bytes) :=
  match buf with
  | [] => none
  | tag :: rest =>
    if tag = 0 then some (none, rest)
    else if tag = 1 then (splitAtChecked 32 rest).map fun (digest, rest) => (some digest, rest)
    else none

/-- The fields after the scheme tag. -/
def parseFields (scheme : KeyScheme) (buf : Bytes) : Option FrameFields := do
  let (origin, buf) ← takeSlice buf
  let (seq, buf) ← takeU64 buf
  let (target, buf) ← takeSlice buf
  let target ← fromUtf8 target
  let (payload, buf) ← takeSlice buf
  let (requiredBlob, proof) ← takeBlob buf
  return ⟨scheme, origin, seq, ⟨target, payload⟩, requiredBlob, proof⟩

/-- `decode_frame_with_blob`: parse a frame and verify its proof over everything before it. -/
def decodeFrameWithBlob (crypto : FrameCrypto) (bytes : Bytes) :
    Except NodeError (Origin × Msg × Option Bytes) :=
  match bytes with
  | [] => .error frameParseError
  | tag :: buf =>
    match KeyScheme.fromTag tag with
    | none => .error (.host (.module s!"frame scheme tag {tag} is unknown"))
    | some scheme =>
      match parseFields scheme buf with
      | none => .error frameParseError
      | some fields =>
        let preimage := bytes.take (bytes.length - fields.proof.length)
        if !crypto.pubkeyWellformed scheme fields.origin then
          .error (.host (.module "frame origin is malformed for its scheme"))
        else if !crypto.verify scheme fields.origin frameNs preimage fields.proof then
          .error (.host (.module "frame proof does not bind this op to its origin"))
        else .ok (.external fields.origin, fields.msg, fields.requiredBlob)

/-- `decode_member`: one batch member as the op its block applies. -/
def decodeMember (crypto : FrameCrypto) (bytes : Bytes) : Except NodeError BlockOp :=
  (decodeFrameWithBlob crypto bytes).map fun (origin, msg, _) => ⟨origin, msg⟩

/-- The ops of the members that decode, in order. -/
def decodableOps (crypto : FrameCrypto) (members : List Bytes) : List BlockOp :=
  members.filterMap fun member => (decodeMember crypto member).toOption

/-- A frame's submitter coordinates, without the signature check. -/
def frameOriginSeq (bytes : Bytes) : Option (Bytes × Nat) :=
  match bytes with
  | [] => none
  | tag :: buf => do
      let _ ← KeyScheme.fromTag tag
      let (origin, buf) ← takeSlice buf
      let (seq, _) ← takeU64 buf
      return (origin, seq)

/-! ## Batches -/

/-- The low seven bits first, `groups` more at most: ten groups hold any `u64`. -/
def putGroups : Nat → Nat → Bytes
  | 0, n => [UInt8.ofNat (n % 128)]
  | groups + 1, n =>
    if n / 128 = 0 then [UInt8.ofNat (n % 128)]
    else UInt8.ofNat (n % 128 + 128) :: putGroups groups (n / 128)

/-- `n` as canonical unsigned LEB128. -/
def putVarint (n : Nat) : Bytes := putGroups 9 n

/-- The rest of a varint, from the group at `shift` on. -/
def getGroups : Bytes → Nat → Nat → Option (Nat × Bytes)
  | [], _, _ => none
  | byte :: rest, result, shift =>
    -- an eleventh group cannot fit a u64, and the tenth carries one bit
    if shift ≥ 64 then none
    else
      let low := byte.toNat % 128
      if shift = 63 ∧ low > 1 then none
      else
        let result := result + low * 2 ^ shift
        if byte.toNat < 128 then
          if byte = 0 ∧ shift ≠ 0 then none else some (result, rest)
        else getGroups rest result (shift + 7)

/-- Read a canonical unsigned LEB128. -/
def getVarint (buf : Bytes) : Option (Nat × Bytes) := getGroups buf 0 0

/-- Member frames as one batch. -/
def encodeBatch (members : List Bytes) : Bytes :=
  putVarint members.length ++ members.flatMap fun m => putVarint m.length ++ m

/-- The next `n` members, each within the cap of a frame. -/
def takeMembers : Nat → Bytes → Option (List Bytes × Bytes)
  | 0, buf => some ([], buf)
  | n + 1, buf => do
      let (len, buf) ← getVarint buf
      if len > maxFrameBytes then none
      else
        let (head, buf) ← splitAtChecked len buf
        let (members, buf) ← takeMembers n buf
        return (head :: members, buf)

/-- A malformed batch. -/
def batchParseError : NodeError := .host (.module "batch super-frame does not parse")

/-- `decode_batch`: the members of a batch, with nothing after them. -/
def decodeBatch (bytes : Bytes) : Except NodeError (List Bytes) :=
  match getVarint bytes with
  | none => .error batchParseError
  | some (n, buf) =>
    match takeMembers n buf with
    | some (members, []) => .ok members
    | _ => .error batchParseError

end Ducktape
