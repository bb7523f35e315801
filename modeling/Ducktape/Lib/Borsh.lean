import Mathlib.Algebra.Order.BigOperators.Group.List
import Mathlib.Tactic.Ring

/-! # Borsh

The binary format of stored records: little-endian integers of a fixed width, sequences under a four-byte
count. A `Format` is a writer with its reader, and `Format.Reads` says that the reader gets a value back
from in front of anything; each combinator keeps it. -/

namespace Ducktape.Lib.Borsh

open List

/-! ## Integers -/

/-- The `width` low bytes of `n`, least first. -/
def le : Nat → Nat → List UInt8
  | 0, _ => []
  | width + 1, n => UInt8.ofNat n :: le width (n / 256)

/-- Read `width` bytes back. -/
def readLe : Nat → List UInt8 → Option (Nat × List UInt8)
  | 0, input => some (0, input)
  | _ + 1, [] => none
  | width + 1, byte :: input => (readLe width input).map fun (n, rest) => (byte.toNat + 256 * n, rest)

@[simp] theorem length_le (width n : Nat) : (le width n).length = width := by
  induction width generalizing n with
  | zero => rfl
  | succ width ih => simp [le, ih]

theorem readLe_le {width n : Nat} (fits : n < 256 ^ width) (rest : List UInt8) :
    readLe width (le width n ++ rest) = some (n, rest) := by
  induction width generalizing n with
  | zero =>
    obtain rfl : n = 0 := by simpa using fits
    rfl
  | succ width ih =>
    have fits' : n / 256 < 256 ^ width := Nat.div_lt_of_lt_mul (by rw [pow_succ] at fits; omega)
    simp only [le, cons_append, readLe, ih fits', Option.map_some, UInt8.toNat_ofNat']
    have whole : n % 2 ^ 8 + 256 * (n / 256) = n := Nat.mod_add_div n 256
    rw [whole]

/-! ## Formats -/

/-- A writer and its reader, which also returns what follows. -/
structure Format (α : Type) where
  write : α → List UInt8
  read : List UInt8 → Option (α × List UInt8)

namespace Format

variable {α β : Type} {F : Format α}

/-- The reader gets `a` back, whatever follows it. -/
def Reads (F : Format α) (a : α) : Prop := ∀ rest, F.read (F.write a ++ rest) = some (a, rest)

/-- `borsh::from_slice`: a value with nothing after it. -/
def fromSlice (F : Format α) (input : List UInt8) : Except String α :=
  match F.read input with
  | some (a, []) => .ok a
  | some (_, _ :: _) => .error "Not all bytes read"
  | none => .error "Unexpected length of input"

theorem Reads.fromSlice {a : α} (reads : F.Reads a) : F.fromSlice (F.write a) = .ok a := by
  have read := reads []
  rw [append_nil] at read
  rw [Format.fromSlice, read]

/-- An unsigned integer of `width` bytes. -/
def uint (width : Nat) : Format Nat := ⟨le width, readLe width⟩

theorem reads_uint {width n : Nat} (fits : n < 256 ^ width) : (uint width).Reads n := readLe_le fits

/-- One byte. -/
def byte : Format UInt8 where
  write b := [b]
  read
    | [] => none
    | b :: rest => some (b, rest)

@[simp] theorem reads_byte (b : UInt8) : byte.Reads b := fun _ => rfl

/-- Read `n` values. -/
def readMany (F : Format α) : Nat → List UInt8 → Option (List α × List UInt8)
  | 0, input => some ([], input)
  | n + 1, input => (F.read input).bind fun (a, input) =>
    (readMany F n input).map fun (as, rest) => (a :: as, rest)

/-- A sequence: its count, then its members. -/
def vec (F : Format α) : Format (List α) where
  write as := le 4 as.length ++ as.flatMap F.write
  read input := (readLe 4 input).bind fun (n, input) => F.readMany n input

theorem readMany_flatMap {as : List α} (reads : ∀ a ∈ as, F.Reads a) (rest : List UInt8) :
    F.readMany as.length (as.flatMap F.write ++ rest) = some (as, rest) := by
  induction as with
  | nil => rfl
  | cons a as ih =>
    have tail := ih fun b mem => reads b (mem_cons_of_mem _ mem)
    simp [readMany, reads a mem_cons_self _, tail]

theorem reads_vec {as : List α} (short : as.length < 256 ^ 4) (reads : ∀ a ∈ as, F.Reads a) :
    F.vec.Reads as := by
  intro rest
  simp only [vec, append_assoc, readLe_le short]
  exact readMany_flatMap reads rest

theorem length_vec (as : List α) :
    (F.vec.write as).length = 4 + (as.map fun a => (F.write a).length).sum := by
  simp [vec]

/-- A byte string. -/
def bytes : Format (List UInt8) := byte.vec

theorem reads_bytes {b : List UInt8} (short : b.length < 256 ^ 4) : bytes.Reads b :=
  reads_vec short fun b _ => reads_byte b

@[simp] theorem length_bytes (b : List UInt8) : (bytes.write b).length = 4 + b.length := by
  simp [bytes, length_vec, byte]

/-- Read up to the `0`, every byte after a mark. -/
def readMarked : List UInt8 → Option (List UInt8 × List UInt8)
  | 0 :: rest => some ([], rest)
  | _ :: byte :: rest => (readMarked rest).map fun (b, rest) => (byte :: b, rest)
  | _ => none

/-- A byte string of any length: a `1` before every byte, and a `0` at its end. -/
def marked : Format (List UInt8) := ⟨fun b => b.flatMap (fun byte => [1, byte]) ++ [0], readMarked⟩

theorem reads_marked (b : List UInt8) : marked.Reads b := by
  intro rest
  induction b with
  | nil => rfl
  | cons byte b ih =>
    have split : marked.write (byte :: b) ++ rest = 1 :: byte :: (marked.write b ++ rest) := rfl
    simp only [marked] at ih split ⊢
    rw [split, readMarked, ih]
    · rfl
    · simp

/-- A value after another. -/
def pair (F : Format α) (G : Format β) : Format (α × β) where
  write p := F.write p.1 ++ G.write p.2
  read input := (F.read input).bind fun (a, input) => (G.read input).map fun (b, rest) => ((a, b), rest)

@[simp] theorem length_pair {G : Format β} (p : α × β) :
    ((F.pair G).write p).length = (F.write p.1).length + (G.write p.2).length := by
  simp [pair]

end Format

end Ducktape.Lib.Borsh
