import Mathlib.Algebra.Ring.Nat
import Mathlib.Data.Finset.Basic
import Mathlib.Tactic.Common

/-! # The system api

The envelopes every module and the host share: messages, events, origins, causal contexts, the
delivery acknowledgment and the api error, with the checks and caps the sdk declares for them.
Machine words are natural numbers; where an operation is checked against its width the bound is
`u64Max`. -/

namespace Ducktape

/-- Raw bytes (`Vec<u8>`). -/
abbrev Bytes := List UInt8

instance : LawfulBEq Bytes := inferInstance

/-- A module's stable identity within the app. -/
abbrev ModuleId := String

/-- An account number: monotonic from 1, `0` is never an account. -/
abbrev AccountNumber := Nat

/-- A module's authenticated root. -/
abbrev StateRoot := Bytes

/-- The largest `u64`. -/
def u64Max : Nat := 2 ^ 64 - 1

/-- `u64::checked_add(1)`. -/
def checkedSucc (n : Nat) : Option Nat := if n < u64Max then some (n + 1) else none

/-- Cap on an op's declared output. -/
def maxOutputBytes : Nat := 256 * 1024

/-- Cap on a dispatch's assigned stamp. -/
def maxAssignedBytes : Nat := 64 * 1024

/-- Items one source's outbound queue hands the host per block. -/
def maxDeliveriesPerBlock : Nat := 32

/-- The largest value the backing store's codec decodes. -/
def maxStoreValueBytes : Nat := 2 ^ 20

/-- The field separator inside composite keys, rejected in caller-chosen ids. -/
def keySep : Char := Char.ofNat 0x1f

/-- Errors surfaced through the system api. -/
inductive Error
  | unknownModule (id : ModuleId)
  | selfQuery
  | queryUnsupported
  | syncUnsupported
  | swapUnsupported
  | budgetExceeded
  | module (text : String)
  deriving DecidableEq, Inhabited

/-- `Display` for `Error`, which is its `Debug` form. -/
def Error.display : Error → String
  | .unknownModule id => s!"UnknownModule({id})"
  | .selfQuery => "SelfQuery"
  | .queryUnsupported => "QueryUnsupported"
  | .syncUnsupported => "SyncUnsupported"
  | .swapUnsupported => "SwapUnsupported"
  | .budgetExceeded => "BudgetExceeded"
  | .module text => s!"Module({text})"

/-- A write intent at a module: re-dispatched by the host as a follow-up op. -/
structure Msg where
  target : ModuleId
  payload : Bytes
  deriving DecidableEq, Inhabited

/-- A record a module emits; it leaves the state machine. -/
structure Event where
  source : ModuleId
  payload : Bytes
  deriving DecidableEq, Inhabited

/-- Who triggered a dispatch. -/
inductive Origin
  /-- An external submitter, identified by its key. -/
  | external (key : Bytes)
  /-- A module that emitted this as a follow-up. -/
  | module (id : ModuleId)
  /-- A program account acting through a host-run call unit. -/
  | program (account : AccountNumber)
  /-- Genesis or system-internal. -/
  | system
  deriving DecidableEq, Inhabited

/-- One lowercase hexadecimal digit. -/
def hexDigit (n : Nat) : Char := if n < 10 then Char.ofNat (48 + n) else Char.ofNat (87 + n)

/-- Lowercase hex of a byte string. -/
def hexLower (bytes : Bytes) : String :=
  String.ofList (bytes.flatMap fun b => [hexDigit (b.toNat / 16), hexDigit (b.toNat % 16)])

/-- The cross-module actor string of an origin. -/
def Origin.actorString : Origin → String
  | .module id => id
  | .program account => s!"acct:{account}"
  | .external bytes => "ext:" ++ hexLower bytes
  | .system => "system"

/-- The identity of a queued call: its requester, the requester's run, and the step in it. -/
structure CallId where
  requester : ModuleId
  invocation : String
  step : Nat
  deriving DecidableEq, Inhabited

/-- One item of a source module's outbound queue, numbered source-globally. -/
structure ItemRef where
  source : ModuleId
  item : Nat
  deriving DecidableEq, Inhabited

/-- Where a causal chain started. -/
inductive Root
  | item (item : ItemRef)
  | call (id : CallId)
  | change (source : ModuleId) (seq : Nat)
  deriving DecidableEq, Inhabited

/-- The latest link of a causal chain. -/
inductive Hop
  | delivery (item : ItemRef)
  | call (id : CallId)
  | completion (id : CallId)
  deriving DecidableEq, Inhabited

/-- The causal context of one dispatch. -/
inductive Cause
  /-- A submitted op or a host injection: the start of any chain. -/
  | direct
  /-- A link the host ran on a module's behalf. -/
  | chain (root : Root) (hop : Hop)
  deriving DecidableEq, Inhabited

/-- The deterministic environment handed to `execute`. -/
structure Env where
  height : Nat
  consensusTime : Nat
  origin : Origin
  me : ModuleId
  cause : Cause
  deriving DecidableEq, Inhabited

/-- One queued item as a source reports it to the host. -/
structure PendingItem where
  item : Nat
  target : ModuleId
  payload : Bytes
  cause : Cause
  deriving DecidableEq, Inhabited

/-- How a delivery ended, as the host reports it to the source. -/
inductive DeliveryOutcome
  | applied
  | failed (reason : String)
  | unrepresentable
  deriving DecidableEq, Inhabited

/-- The host's acknowledgment of one delivery, addressed to the source that queued the item. -/
structure Ack where
  item : Nat
  target : ModuleId
  outcome : DeliveryOutcome
  deriving DecidableEq, Inhabited

/-- A dispatch declaration: nothing, the last value declared, or the first oversized one. -/
inductive Declared
  | nothing
  | value (bytes : Bytes)
  | oversized (len cap : Nat)
  deriving DecidableEq, Inhabited

/-- Retain the last value, or the first oversized declaration. -/
def Declared.declare (declared : Declared) (bytes : Bytes) (cap : Nat) : Declared :=
  match declared with
  | .oversized len cap => .oversized len cap
  | .nothing | .value _ => if bytes.length > cap then .oversized bytes.length cap else .value bytes

/-- Validate a declaration after the dispatch succeeded. -/
def Declared.intoValue (declared : Declared) (what : String) : Except Error (Option Bytes) :=
  match declared with
  | .nothing => .ok none
  | .value bytes => .ok (some bytes)
  | .oversized len cap => .error (.module s!"{what} exceeds cap ({len} > {cap})")

/-- The declaration a sequence of `declare` calls under one cap leaves. -/
def Declared.ofCalls (cap : Nat) (calls : List Bytes) : Declared :=
  calls.foldl (fun declared bytes => declared.declare bytes cap) .nothing

/-- Little-endian bytes of a `u64`. -/
def u64le (n : Nat) : Bytes := (List.range 8).map fun i => UInt8.ofNat (n / 256 ^ i)

@[simp] theorem length_u64le (n : Nat) : (u64le n).length = 8 := by simp [u64le]

/-- The number little-endian bytes stand for. -/
def ofLe (bytes : Bytes) : Nat := bytes.foldr (fun b n => b.toNat + 256 * n) 0

theorem ofLe_u64le {n : Nat} (word : n < 2 ^ 64) : ofLe (u64le n) = n := by
  simp only [u64le, ofLe, show List.range 8 = [0, 1, 2, 3, 4, 5, 6, 7] from rfl, List.map_cons, List.map_nil,
    List.foldr_cons, List.foldr_nil, UInt8.toNat_ofNat']
  omega

/-- Eight little-endian bytes determine a `u64`. -/
theorem u64le_inj {n m : Nat} (hn : n < 2 ^ 64) (hm : m < 2 ^ 64) (same : u64le n = u64le m) : n = m := by
  rw [← ofLe_u64le hn, same, ofLe_u64le hm]

/-- The bytes of a string. -/
def utf8 (s : String) : Bytes := s.toUTF8.data.toList

/-- `String::from_utf8`. -/
def fromUtf8 (b : Bytes) : Option String := String.fromUTF8? ⟨b.toArray⟩

theorem fromUtf8_eq_some {b : Bytes} {s : String} : fromUtf8 b = some s ↔ b = utf8 s := by
  rw [fromUtf8]
  constructor
  · intro decoded
    rw [String.fromUTF8?] at decoded
    split at decoded
    · obtain rfl := Option.some.inj decoded
      rfl
    · cases decoded
  · rintro rfl
    have same : ⟨(utf8 s).toArray⟩ = s.toByteArray := by simp [utf8]
    rw [String.fromUTF8?, same, dif_pos s.isValidUTF8]
    rfl

@[simp] theorem fromUtf8_utf8 (s : String) : fromUtf8 (utf8 s) = some s := fromUtf8_eq_some.mpr rfl

/-- Unicode white space, as `str::trim` strips it. -/
def isWhitespace (c : Char) : Bool :=
  let n := c.toNat
  (9 ≤ n && n ≤ 13) || n == 0x20 || n == 0x85 || n == 0xa0 || n == 0x1680 ||
    (0x2000 ≤ n && n ≤ 0x200a) || n == 0x2028 || n == 0x2029 || n == 0x202f || n == 0x205f ||
    n == 0x3000

/-- `str::trim`. -/
def trim (s : String) : String :=
  String.ofList ((s.toList.dropWhile isWhitespace).reverse.dropWhile isWhitespace).reverse

end Ducktape
