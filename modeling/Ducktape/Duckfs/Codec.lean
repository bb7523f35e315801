import Ducktape.Lib.Cursor
import Ducktape.Sdk.Types

/-! # The canonical cursor codec

The byte grammar every duckfs frame speaks: little-endian integers, strings under a `u64` byte count,
raw object ids, `0`/`1` booleans, and a whole-input finish. Each writer here stands beside its reader and
the law that the reader takes the writer's bytes back.

`Hash` holds what the content addressing rests on: the digest, and the spellings of an id in a frame, in
hex and as catalog shards. -/

namespace Ducktape.Duckfs

open Lib Lib.Borsh Cursor

/-- An object id: a digest. -/
abbrev ObjectId := Bytes

/-- The digest and the spellings of its values. The source's is sha256, raw, in lowercase hex, and as two
hex digits per byte. -/
structure Hash where
  sha256 : Bytes → ObjectId
  /-- The id's bytes in a frame. -/
  push : ObjectId → Bytes
  /-- Take an id off the front of a frame. -/
  read : Bytes → Option (ObjectId × Bytes)
  toHex : ObjectId → String
  fromHex32 : String → Option ObjectId
  /-- The id's bytes, each as two hex digits. -/
  digits : ObjectId → List String

/-- The id is read back from in front of anything. -/
def Hash.Framed (H : Hash) (id : ObjectId) : Prop := ∀ rest, H.read (H.push id ++ rest) = some (id, rest)

/-- Every id is read back. -/
def Hash.Frames (H : Hash) : Prop := ∀ id, H.Framed id

/-- A digest without collisions: the preimage itself. -/
def plainHash : Hash where
  sha256 preimage := preimage
  push := Format.marked.write
  read := Format.marked.read
  toHex id := String.ofList (id.map fun byte => Char.ofNat byte.toNat)
  fromHex32 text := some (text.toList.map fun char => UInt8.ofNat char.toNat)
  digits id := id.map (fun byte => toString byte.toNat) ++ [""]

theorem plainHash_frames : plainHash.Frames := Format.reads_marked

theorem plainHash_injective : Function.Injective plainHash.sha256 := fun _ _ same => same

/-! ## Writers and readers -/

variable (H : Hash) (what : String)

/-- The input ends inside a field. -/
def truncated : String := s!"files: {what} truncated"

/-- The next byte. -/
def u8 : Cursor Nat := Cursor.uint 1 (truncated what)

/-- The next two bytes, little-endian. -/
def u16 : Cursor Nat := Cursor.uint 2 (truncated what)

/-- The next four bytes, little-endian. -/
def u32 : Cursor Nat := Cursor.uint 4 (truncated what)

/-- The next eight bytes, little-endian. -/
def u64 : Cursor Nat := Cursor.uint 8 (truncated what)

/-- The next object id. -/
def bytes32 : Cursor ObjectId := fun input =>
  match H.read input with
  | some taken => .ok taken
  | none => .error (truncated what)

/-- A single-byte boolean: only `0` and `1` are canonical. -/
def boolean : Cursor Bool := do
  match ← u8 what with
  | 0 => pure false
  | 1 => pure true
  | _ => throw s!"files: {what} boolean byte is not 0/1"

/-- A byte string under its `u64` length. -/
def bytes : Cursor Bytes := do
  let len ← u64 what
  Cursor.take len (truncated what)

/-- A utf-8 string under its `u64` byte length. -/
def string : Cursor String := do
  let taken ← bytes what
  Cursor.ofOption (fromUtf8 taken) s!"files: {what} string is not utf-8"

/-- Every byte must be accounted for. -/
def finish : Cursor Unit := Cursor.finish s!"files: {what} has trailing bytes"

/-- Append the canonical string shape. -/
def pushString (value : String) : Bytes := le 8 value.utf8ByteSize ++ utf8 value

/-- Append a byte string under its length. -/
def pushBytes (value : Bytes) : Bytes := le 8 value.length ++ value

/-- Append a boolean. -/
def pushBool (value : Bool) : Bytes := le 1 value.toNat

variable {H} {what}

/-! ## Reading back -/

theorem reads_u8 {n : Nat} (fits : n < 256) : (u8 what).Reads (le 1 n) n :=
  reads_uint (by omega) _

theorem reads_u16 {n : Nat} (fits : n < 2 ^ 16) : (u16 what).Reads (le 2 n) n :=
  reads_uint (by omega) _

theorem reads_u32 {n : Nat} (fits : n < 2 ^ 32) : (u32 what).Reads (le 4 n) n :=
  reads_uint (by omega) _

theorem reads_u64 {n : Nat} (fits : n < 2 ^ 64) : (u64 what).Reads (le 8 n) n :=
  reads_uint (by omega) _

theorem reads_bytes32 {id : ObjectId} (framed : H.Framed id) : (bytes32 H what).Reads (H.push id) id := by
  intro rest
  rw [bytes32, framed]

theorem reads_boolean (value : Bool) : (boolean what).Reads (pushBool value) value := by
  cases value with
  | false => exact (reads_u8 (by decide)).bind (.pure false)
  | true => exact (reads_u8 (by decide)).bind (.pure true)

theorem reads_bytes {value : Bytes} (fits : value.length < 2 ^ 64) :
    (bytes what).Reads (pushBytes value) value :=
  (reads_u64 fits).bind (reads_take value _)

theorem reads_string {value : String} (fits : value.utf8ByteSize < 2 ^ 64) :
    (string what).Reads (pushString value) value := by
  have taken : (bytes what).Reads (pushString value) (utf8 value) := by
    exact reads_bytes fits
  exact taken.bind_ofOption (fromUtf8_utf8 value)

/-! ## What a read value is -/

theorem yields_u64 : (u64 what).Yields fun n => n < 2 ^ 64 := by
  intro input n rest read
  have small := yields_uint 8 _ input n rest read
  omega

theorem yields_bytes : (bytes what).Yields fun value => value.length < 2 ^ 64 := by
  refine yields_u64.bind fun len fits input value rest read => ?_
  rw [yields_take len _ input value rest read]
  exact fits

theorem yields_string : (string what).Yields fun value => value.utf8ByteSize < 2 ^ 64 := by
  refine yields_bytes.bind fun taken fits input value rest read => ?_
  have decoded := yields_ofOption _ _ input value rest read
  rw [fromUtf8_eq_some.mp decoded] at fits
  exact fits

end Ducktape.Duckfs
