import Ducktape.Lib.Borsh
import Std.Data.ExtTreeMap

/-! # Strict cursors

A reader that takes its value from the front of the input or refuses, as a monad. Two laws are kept by
every combinator:

* `Cursor.Reads r w a`: in front of anything, `r` takes exactly `w` and gives `a`;
* `Cursor.Yields r P`: whatever `r` gives satisfies `P`.

`Cursor.ascending` is the loop that reads a counted map and refuses a key that does not ascend;
`Cursor.reads_ascending` says that it reads back a map written in the order of its keys.
-/

namespace Ducktape.Lib

open Borsh (le readLe readLe_le)
open Std

/-- A reader over the rest of an input. -/
abbrev Cursor (α : Type) : Type := StateT (List UInt8) (Except String) α

namespace Cursor

variable {α β K V : Type} {a : α} {b : β} {k : α → Cursor β} {r : Cursor α} {w : List UInt8}
  {P : α → Prop} {error : String}

/-- Taking `w` off the front gives `a`, whatever follows. -/
def Reads (r : Cursor α) (w : List UInt8) (a : α) : Prop := ∀ rest, r (w ++ rest) = .ok (a, rest)

/-- Whatever the reader gives satisfies `P`. -/
def Yields (r : Cursor α) (P : α → Prop) : Prop := ∀ input a rest, r input = .ok (a, rest) → P a

/-! ## Composition -/

theorem Reads.pure (a : α) : Reads (pure a) [] a := fun _ => rfl

theorem Reads.bind {w' : List UInt8} (first : r.Reads w a) (second : (k a).Reads w' b) :
    Reads (r >>= k) (w ++ w') b := by
  intro rest
  change (r (w ++ w' ++ rest)).bind (fun read => k read.1 read.2) = _
  rw [List.append_assoc, first]
  exact second rest

/-- A last field: what follows it reads nothing more. -/
theorem Reads.last (first : r.Reads w a) (second : (k a).Reads [] b) : Reads (r >>= k) w b := by
  have whole := first.bind second
  rwa [List.append_nil] at whole

theorem Yields.pure (holds : P a) : Yields (pure a) P := by
  intro input b rest read
  obtain ⟨rfl, -⟩ : a = b ∧ input = rest := by simpa using Except.ok.inj read
  exact holds

theorem Yields.bind {R : β → Prop} (first : r.Yields P) (second : ∀ a, P a → (k a).Yields R) :
    Yields (r >>= k) R := by
  intro input b rest read
  change (r input).bind (fun read => k read.1 read.2) = _ at read
  cases taken : r input with
  | error e => rw [taken] at read; cases read
  | ok pair =>
    rw [taken] at read
    exact second pair.1 (first _ _ _ taken) _ _ _ read

theorem Yields.throw (error : String) : Yields (throw error : Cursor α) P :=
  fun _ _ _ read => nomatch read

theorem Yields.trivial (r : Cursor α) : r.Yields fun _ => True := fun _ _ _ _ => True.intro

/-- Refuse when `bad` holds. -/
def refuse (bad : Prop) [Decidable bad] (error : String) : Cursor Unit :=
  if bad then throw error else pure ()

theorem reads_refuse {bad : Prop} [Decidable bad] (good : ¬bad) : (refuse bad error).Reads [] () := by
  rw [refuse, if_neg good]
  exact .pure ()

/-- A check that passes reads nothing. -/
theorem Reads.guard {bad : Prop} [Decidable bad] {k : Unit → Cursor β} (good : ¬bad)
    (rest : (k ()).Reads w b) : Reads (refuse bad error >>= k) w b :=
  (reads_refuse good).bind rest

theorem yields_refuse (bad : Prop) [Decidable bad] (error : String) :
    (refuse bad error).Yields fun _ => ¬bad := by
  rw [refuse]
  split
  · exact .throw error
  · next good => exact .pure good

/-! ## Primitives -/

/-- An unsigned integer of `width` bytes. -/
def uint (width : Nat) (error : String) : Cursor Nat := fun input =>
  match readLe width input with
  | some read => .ok read
  | none => .error error

theorem reads_uint {width n : Nat} (fits : n < 256 ^ width) (error : String) :
    (uint width error).Reads (le width n) n := by
  intro rest
  rw [uint, readLe_le fits]

theorem readLe_lt {width : Nat} {input : List UInt8} {n : Nat} {rest : List UInt8}
    (read : readLe width input = some (n, rest)) : n < 256 ^ width := by
  induction width generalizing input n with
  | zero =>
    obtain ⟨rfl, -⟩ : 0 = n ∧ input = rest := by simpa [readLe] using read
    exact Nat.one_pos
  | succ width ih =>
    cases input with
    | nil => simp [readLe] at read
    | cons byte input =>
      simp only [readLe, Option.map_eq_some_iff, Prod.exists] at read
      obtain ⟨high, _, tail, rfl, -⟩ := read
      have small := ih tail
      have low := UInt8.toNat_lt byte
      omega

theorem yields_uint (width : Nat) (error : String) :
    (uint width error).Yields fun n => n < 256 ^ width := by
  intro input n rest read
  rw [uint] at read
  split at read
  · next found => exact readLe_lt (found.trans (congrArg some (Except.ok.inj read)))
  · cases read

/-- The next `n` bytes. -/
def take (n : Nat) (error : String) : Cursor (List UInt8) := fun input =>
  if n ≤ input.length then .ok (input.take n, input.drop n) else .error error

theorem reads_take (w : List UInt8) (error : String) : (take w.length error).Reads w w := by
  intro rest
  simp [take]

theorem yields_take (n : Nat) (error : String) : (take n error).Yields fun w => w.length = n := by
  intro input w rest read
  rw [take] at read
  split at read
  · next enough =>
      obtain ⟨rfl, -⟩ : input.take n = w ∧ input.drop n = rest := by simpa using Except.ok.inj read
      simpa using enough
  · cases read

/-- An optional outcome of a value already read, or a refusal. -/
def ofOption (value : Option α) (error : String) : Cursor α :=
  match value with
  | some a => pure a
  | none => throw error

theorem reads_ofOption (a : α) (error : String) : (ofOption (some a) error).Reads [] a := .pure a

/-- A conversion that succeeds reads nothing. -/
theorem Reads.ofOption {value : Option α} (found : value = some a) (rest : (k a).Reads w b) :
    Reads (Cursor.ofOption value error >>= k) w b := by
  subst found
  exact (reads_ofOption a error).bind rest

theorem Reads.bind_ofOption {g : α → Option β} (first : r.Reads w a) (found : g a = some b) :
    Reads (r >>= fun a => Cursor.ofOption (g a) error) w b := by
  have second : (Cursor.ofOption (g a) error).Reads [] b := by
    rw [found]
    exact reads_ofOption b error
  exact first.last second

theorem yields_ofOption (value : Option α) (error : String) :
    (ofOption value error).Yields fun a => value = some a := by
  cases value with
  | none => exact .throw error
  | some a => exact .pure rfl

/-- The input ends here. -/
def finish (error : String) : Cursor Unit := fun input =>
  if input = [] then .ok ((), []) else .error error

/-- Read a whole input. -/
def run (r : Cursor α) (input : List UInt8) : Except String α := (r input).map Prod.fst

theorem Reads.run_finish (reads : r.Reads w a) :
    (do let a ← r; finish error; Pure.pure a : Cursor α).run w = .ok a := by
  have read := reads []
  rw [List.append_nil] at read
  change ((r w).bind fun read => (finish error read.2).bind fun done => .ok (read.1, done.2)).map _ = _
  rw [read]
  rfl

theorem Yields.run_finish {input : List UInt8} (yields : r.Yields P)
    (read : (do let a ← r; finish error; Pure.pure a : Cursor α).run input = .ok a) : P a := by
  have whole : Yields (do let a ← r; finish error; Pure.pure a) P :=
    yields.bind fun a holds => (Yields.trivial _).bind fun _ _ => .pure holds
  rw [run] at read
  cases taken : (do let a ← r; finish error; Pure.pure a) input with
  | error e => rw [taken] at read; cases read
  | ok pair =>
    rw [taken] at read
    obtain rfl := Except.ok.inj read
    exact whole _ _ _ taken

/-! ## Counted sequences -/

/-- Read `n` values. -/
def many (r : Cursor α) : Nat → Cursor (List α)
  | 0 => pure []
  | n + 1 => do
      let a ← r
      let as ← many r n
      pure (a :: as)

theorem reads_many {write : α → List UInt8} {as : List α} (reads : ∀ a ∈ as, r.Reads (write a) a) :
    (many r as.length).Reads (as.flatMap write) as := by
  induction as with
  | nil => exact .pure []
  | cons a as ih =>
    have tail := ih fun b mem => reads b (List.mem_cons_of_mem _ mem)
    exact (reads a List.mem_cons_self).bind (tail.last (.pure _))

/-! ## Counted maps -/

section Maps

variable {cmp : K → K → Ordering} [Std.TransCmp cmp] {map : ExtTreeMap K V cmp} {error : String}
  {r : Cursor (K × V)} {write : K × V → List UInt8}

/-- Read `n` bindings into a map, refusing a key not above every key before it. -/
def ascending (r : Cursor (K × V)) (error : String) :
    Nat → ExtTreeMap K V cmp → Cursor (ExtTreeMap K V cmp)
  | 0, map => pure map
  | n + 1, map => do
      let (key, value) ← r
      refuse (map.keys.getLast?.any fun last => (cmp last key).isGE) error
      ascending r error n (map.insert key value)

/-- Every key of the map is below `key`. -/
def Below (map : ExtTreeMap K V cmp) (key : K) : Prop :=
  ∀ last, map.maxKey? = some last → cmp last key = .lt

theorem below_insert {key next : K} (value : V) (below : Below map key) (above : cmp key next = .lt) :
    Below (map.insert key value) next := by
  intro last greatest
  rw [ExtTreeMap.maxKey?_insert] at greatest
  obtain rfl : key = last := by
    cases top : map.maxKey? with
    | none => simpa [top] using greatest
    | some old => simpa [top, below old top] using greatest
  exact above

theorem reads_ascending {pairs : List (K × V)} (reads : ∀ pair ∈ pairs, r.Reads (write pair) pair)
    (sorted : pairs.Pairwise fun a b => cmp a.1 b.1 = .lt) (below : ∀ pair ∈ pairs, Below map pair.1) :
    (ascending r error pairs.length map).Reads (pairs.flatMap write) (map.insertMany pairs) := by
  induction pairs generalizing map with
  | nil => exact .pure map
  | cons pair pairs ih =>
    obtain ⟨first, sorted⟩ := List.pairwise_cons.mp sorted
    have head := below pair List.mem_cons_self
    have good : ¬(map.keys.getLast?.any fun last => (cmp last pair.1).isGE) = true := by
      rw [← ExtTreeMap.maxKey?_eq_getLast?_keys]
      cases top : map.maxKey? with
      | none => simp
      | some last => simp [head last top]
    have tail : (ascending r error pairs.length (map.insert pair.1 pair.2)).Reads _ _ :=
      ih (fun b mem => reads b (List.mem_cons_of_mem _ mem)) sorted
        fun b mem => below_insert pair.2 head (first b mem)
    rw [ExtTreeMap.insertMany_cons]
    exact (reads pair List.mem_cons_self).bind (.guard good tail)

variable [Std.LawfulEqCmp cmp]

theorem yields_ascending {P : K → V → Prop} (yields : r.Yields fun pair => P pair.1 pair.2) (n : Nat)
    (before : ∀ key value, map[key]? = some value → P key value) :
    (ascending r error n map).Yields fun result =>
      (∀ key value, result[key]? = some value → P key value) ∧ result.size ≤ map.size + n := by
  induction n generalizing map with
  | zero => exact .pure ⟨before, Nat.le_refl _⟩
  | succ n ih =>
    refine yields.bind fun pair holds => (Yields.trivial _).bind fun _ _ => ?_
    refine fun input result rest read => ?_
    have after : ∀ key value, (map.insert pair.1 pair.2)[key]? = some value → P key value := by
      intro key value found
      rw [ExtTreeMap.getElem?_insert] at found
      split at found
      · next same =>
          obtain rfl := Std.LawfulEqCmp.eq_of_compare same
          obtain rfl := Option.some.inj found
          exact holds
      · exact before key value found
    obtain ⟨kept, size⟩ := ih after input result rest read
    have grown := ExtTreeMap.size_insert_le (t := map) (k := pair.1) (v := pair.2)
    exact ⟨kept, by omega⟩

/-- **A map written in the order of its keys is read back.** -/
theorem reads_ascending_toList (reads : ∀ pair ∈ map.toList, r.Reads (write pair) pair) :
    (ascending r error map.size ∅).Reads (map.toList.flatMap write) map := by
  have read : (ascending r error map.toList.length ∅).Reads _ _ :=
    reads_ascending reads ExtTreeMap.ordered_keys_toList fun pair _ last top => by simp at top
  rw [ExtTreeMap.length_toList] at read
  have same : (∅ : ExtTreeMap K V cmp).insertMany map.toList = map := by
    let _ : BEq K := ⟨fun a b => cmp a b == .eq⟩
    have _ : Std.LawfulBEqCmp cmp := ⟨fun {a b} => (beq_iff_eq).symm⟩
    refine ExtTreeMap.ext_getElem? fun key => ?_
    cases found : map[key]? with
    | some value =>
      have mem : (key, value) ∈ map.toList := ExtTreeMap.mem_toList_iff_getElem?_eq_some.mpr found
      exact ExtTreeMap.getElem?_insertMany_list_of_mem Std.ReflCmp.compare_self
        ExtTreeMap.distinct_keys_toList mem
    | none =>
      simpa using found
  rwa [same] at read

end Maps

end Cursor

end Ducktape.Lib
