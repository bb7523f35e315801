import Ducktape.Node.Frames

/-! # The wire forms are canonical

Each reader of `Ducktape.Node.Frames` accepts exactly what its writer writes: `takeSlice_eq_some`,
`parseFields_eq_some`, `getVarint_eq_some`, `takeMembers_eq_some`. So a batch has one encoding, and a frame's
signed bytes and its fields determine each other (`codecs_canonical`). -/

namespace Ducktape

open Option List Nat KeyScheme

variable {buf rest : Bytes} {n : Nat}

/-! ## Fields -/

theorem splitAtChecked_eq_some {head : Bytes} :
    splitAtChecked n buf = some (head, rest) ↔ head.length = n ∧ buf = head ++ rest := by
  unfold splitAtChecked
  constructor
  · intro taken
    split at taken
    · next long =>
        obtain ⟨rfl, rfl⟩ := Prod.mk.inj (some.inj taken)
        exact ⟨by rw [length_take, min_eq_left long], (take_append_drop n buf).symm⟩
    · cases taken
  · rintro ⟨rfl, rfl⟩
    simp

theorem ofLe_inj {first second : Bytes} (length : first.length = second.length) (same : ofLe first = ofLe second) :
    first = second := by
  induction first generalizing second with
  | nil => exact (length_eq_zero_iff.mp length.symm).symm
  | cons byte first ih =>
    cases second with
    | nil => cases length
    | cons byte' second =>
      have values : byte.toNat + 256 * ofLe first = byte'.toNat + 256 * ofLe second := same
      have small := byte.toNat_lt
      have small' := byte'.toNat_lt
      rw [UInt8.toNat_inj.mp (show byte.toNat = byte'.toNat by omega),
        ih (succ.inj length) (show ofLe first = ofLe second by omega)]

theorem ofLe_lt (bytes : Bytes) : ofLe bytes < 256 ^ bytes.length := by
  induction bytes with
  | nil => decide
  | cons byte bytes ih =>
    have small := byte.toNat_lt
    change byte.toNat + 256 * ofLe bytes < _
    rw [length_cons]
    omega

theorem takeU64_eq_some : takeU64 buf = some (n, rest) ↔ n < 2 ^ 64 ∧ buf = u64le n ++ rest := by
  simp only [takeU64, bind_eq_bind, bind_eq_some_iff, Prod.exists, splitAtChecked_eq_some, pure,
    some.injEq, Prod.mk.injEq]
  constructor
  · rintro ⟨head, _, ⟨length, rfl⟩, rfl, rfl⟩
    have word : ofLe head < 2 ^ 64 := by
      have := ofLe_lt head
      rwa [length] at this
    exact ⟨word, by rw [ofLe_inj (by rw [length_u64le, length]) (ofLe_u64le word)]⟩
  · rintro ⟨word, rfl⟩
    exact ⟨u64le n, rest, ⟨length_u64le n, rfl⟩, ofLe_u64le word, rfl⟩

/-- Bytes under their length. -/
def sized (bytes : Bytes) : Bytes := u64le bytes.length ++ bytes

theorem takeSlice_eq_some {slice : Bytes} :
    takeSlice buf = some (slice, rest) ↔ slice.length < 2 ^ 64 ∧ buf = sized slice ++ rest := by
  simp only [takeSlice, bind_eq_bind, bind_eq_some_iff, Prod.exists, splitAtChecked_eq_some,
    takeU64_eq_some]
  constructor
  · rintro ⟨_, _, ⟨word, rfl⟩, rfl, rfl⟩
    exact ⟨word, rfl⟩
  · rintro ⟨word, rfl⟩
    exact ⟨_, _, ⟨word, rfl⟩, rfl, rfl⟩

/-- The optional digest as it is written. -/
def blobBytes : Option Bytes → Bytes
  | none => [0]
  | some digest => 1 :: digest

variable {blob : Option Bytes}

theorem takeBlob_eq_some :
    takeBlob buf = some (blob, rest) ↔ (∀ digest, blob = some digest → digest.length = 32) ∧
      buf = blobBytes blob ++ rest := by
  constructor
  · intro taken
    cases buf with
    | nil => cases taken
    | cons tag buf =>
      rw [takeBlob] at taken
      split at taken
      · next zero =>
          obtain ⟨rfl, rfl⟩ := Prod.mk.inj (some.inj taken)
          exact ⟨nofun, by rw [zero]; rfl⟩
      · split at taken
        · next one =>
            obtain ⟨⟨digest, rest'⟩, split, same⟩ := map_eq_some_iff.mp taken
            obtain ⟨length, rfl⟩ := splitAtChecked_eq_some.mp split
            cases same
            exact ⟨by rintro _ ⟨⟩; exact length, by rw [one]; rfl⟩
        · cases taken
  · rintro ⟨length, rfl⟩
    cases blob with
    | none => rfl
    | some digest =>
      have split : splitAtChecked 32 (digest ++ rest) = some (digest, rest) :=
        splitAtChecked_eq_some.mpr ⟨length digest rfl, rfl⟩
      change takeBlob (1 :: (digest ++ rest)) = _
      rw [takeBlob, split]
      rfl

/-! ## Frames -/

variable {scheme : KeyScheme}

theorem KeyScheme.tag_of_fromTag {tag : UInt8} (known : fromTag tag = some scheme) :
    scheme.tag = tag := by
  unfold fromTag at known
  split at known
  · next same => cases known; rw [same]; rfl
  split at known
  · next same => cases known; rw [same]; rfl
  · split at known
    · next same => cases known; rw [same]; rfl
    · cases known

/-- The fields after the scheme tag, as they are signed. -/
def signedFields (origin : Bytes) (seq : Nat) (msg : Msg) (blob : Option Bytes) : Bytes :=
  sized origin ++ (u64le seq ++ (sized (utf8 msg.target) ++ (sized msg.payload ++ blobBytes blob)))

theorem framePreimageWithBlob_eq (scheme : KeyScheme) (origin : Bytes) (seq : Nat) (msg : Msg) (blob : Option Bytes) :
    framePreimageWithBlob scheme origin seq msg blob = scheme.tag :: signedFields origin seq msg blob := by
  cases blob <;> simp [framePreimageWithBlob, signedFields, sized, blobBytes]

/-- Fields a frame can carry: lengths and the sequence are `u64`s, a digest is 32 bytes. -/
structure FrameFits (origin : Bytes) (seq : Nat) (msg : Msg) (blob : Option Bytes) : Prop where
  origin : origin.length < 2 ^ 64
  seq : seq < 2 ^ 64
  target : (utf8 msg.target).length < 2 ^ 64
  payload : msg.payload.length < 2 ^ 64
  blob : ∀ digest, blob = some digest → digest.length = 32

theorem parseFields_eq_some {fields : FrameFields} :
    parseFields scheme buf = some fields ↔
      fields.scheme = scheme ∧ FrameFits fields.origin fields.seq fields.msg fields.requiredBlob ∧
        buf = signedFields fields.origin fields.seq fields.msg fields.requiredBlob ++ fields.proof := by
  simp only [parseFields, bind_eq_bind, bind_eq_some_iff, Prod.exists, takeSlice_eq_some,
    takeU64_eq_some, fromUtf8_eq_some, takeBlob_eq_some, pure, some.injEq, signedFields, append_assoc]
  constructor
  · rintro ⟨_, _, ⟨origin, rfl⟩, _, _, ⟨seq, rfl⟩, _, _, ⟨target, rfl⟩, _, rfl, _, _, ⟨payload, rfl⟩, _, _,
      ⟨blob, rfl⟩, rfl⟩
    exact ⟨rfl, ⟨origin, seq, target, payload, blob⟩, rfl⟩
  · rintro ⟨rfl, fits, rfl⟩
    exact ⟨_, _, ⟨fits.origin, rfl⟩, _, _, ⟨fits.seq, rfl⟩, _, _, ⟨fits.target, rfl⟩, _, rfl, _, _,
      ⟨fits.payload, rfl⟩, _, _, ⟨fits.blob, rfl⟩, rfl⟩

/-- Different fields never have the same signed bytes. -/
theorem framePreimage_inj {scheme' : KeyScheme} {origin origin' : Bytes} {seq seq' : Nat}
    {msg msg' : Msg} {blob' : Option Bytes} (fits : FrameFits origin seq msg blob)
    (fits' : FrameFits origin' seq' msg' blob')
    (same : framePreimageWithBlob scheme origin seq msg blob = framePreimageWithBlob scheme' origin' seq' msg' blob')
    :
    scheme = scheme' ∧ origin = origin' ∧ seq = seq' ∧ msg = msg' ∧ blob = blob' := by
  rw [framePreimageWithBlob_eq, framePreimageWithBlob_eq] at same
  obtain ⟨tags, fields⟩ := cons.inj same
  have schemes := fromTag_tag scheme
  rw [tags, fromTag_tag] at schemes
  have parsed : parseFields scheme (signedFields origin seq msg blob) = some ⟨scheme, origin, seq, msg, blob, []⟩ :=
    parseFields_eq_some.mpr ⟨rfl, fits, (append_nil _).symm⟩
  have parsed' : parseFields scheme (signedFields origin' seq' msg' blob') =
      some ⟨scheme, origin', seq', msg', blob', []⟩ :=
    parseFields_eq_some.mpr ⟨rfl, fits', (append_nil _).symm⟩
  rw [fields, parsed'] at parsed
  cases parsed
  exact ⟨(some.inj schemes).symm, rfl, rfl, rfl, rfl⟩

/-- An accepted frame is its fields' signed bytes and a proof over them. -/
theorem decodeFrame_ok {crypto : FrameCrypto} {bytes : Bytes} {origin : Origin} {msg : Msg}
    (decoded : decodeFrameWithBlob crypto bytes = .ok (origin, msg, blob)) :
    ∃ scheme key seq proof, origin = .external key ∧ FrameFits key seq msg blob ∧
      bytes = framePreimageWithBlob scheme key seq msg blob ++ proof ∧
      crypto.verify scheme key frameNs (framePreimageWithBlob scheme key seq msg blob) proof = true := by
  cases bytes with
  | nil => cases decoded
  | cons tag buf =>
    rw [decodeFrameWithBlob] at decoded
    cases known : fromTag tag with
    | none =>
      rw [known] at decoded
      cases decoded
    | some scheme =>
      cases parsed : parseFields scheme buf with
      | none =>
        simp only [known, parsed] at decoded
        cases decoded
      | some fields =>
        obtain ⟨-, fits, rfl⟩ := parseFields_eq_some.mp parsed
        have signed : (tag :: (signedFields fields.origin fields.seq fields.msg fields.requiredBlob ++ fields.proof)).take
            ((tag :: (signedFields fields.origin fields.seq fields.msg fields.requiredBlob ++ fields.proof)).length -
              fields.proof.length) =
            framePreimageWithBlob scheme fields.origin fields.seq fields.msg fields.requiredBlob := by
          rw [framePreimageWithBlob_eq, tag_of_fromTag known, ← cons_append, length_append,
            Nat.add_sub_cancel, take_left]
        simp only [known, parsed, signed] at decoded
        split at decoded
        · cases decoded
        split at decoded
        · cases decoded
        next verified =>
          cases decoded
          refine ⟨scheme, fields.origin, fields.seq, fields.proof, rfl, fits, ?_, by simpa using verified⟩
          rw [framePreimageWithBlob_eq, tag_of_fromTag known, cons_append]

/-! ## Batches -/

theorem getGroups_over {shift : Nat} (over_ : 64 ≤ shift) (buf : Bytes) (result : Nat) :
    getGroups buf result shift = none := by
  cases buf with
  | nil => rfl
  | cons byte buf => rw [getGroups, if_pos over_]

/-- One byte is a last group, or one more follows. -/
theorem getGroups_cons {byte : UInt8} {result shift value : Nat} (within : shift < 64) :
    getGroups (byte :: buf) result shift = some (value, rest) ↔
      ¬ (shift = 63 ∧ byte.toNat % 128 > 1) ∧
        ((byte.toNat < 128 ∧ ¬ (byte = 0 ∧ shift ≠ 0) ∧ value = result + byte.toNat * 2 ^ shift ∧ buf = rest) ∨
          (128 ≤ byte.toNat ∧
            getGroups buf (result + (byte.toNat - 128) * 2 ^ shift) (shift + 7) = some (value, rest))) := by
  have small := byte.toNat_lt
  rw [getGroups, if_neg (not_le.mpr within)]
  by_cases top : shift = 63 ∧ byte.toNat % 128 > 1
  · simp [top]
  by_cases last : byte.toNat < 128
  · have low : byte.toNat % 128 = byte.toNat := mod_eq_of_lt last
    by_cases zero : byte = 0 ∧ shift ≠ 0
    · simp [zero]
    · simp [last, low, eq_comm]
  · have low : byte.toNat % 128 = byte.toNat - 128 := by omega
    simp [last, low, not_lt.mp last]

/-- The groups from the one at `shift` on, with `groups` more allowed. The tenth carries one bit, and a number in
several groups does not end in a zero group. -/
theorem getGroups_eq_some {groups : Nat} (within : groups ≤ 9) {result value : Nat} :
    getGroups buf result (63 - 7 * groups) = some (value, rest) ↔
      ∃ n < 2 ^ (7 * groups + 1), (groups ≠ 9 → n ≠ 0) ∧ value = result + n * 2 ^ (63 - 7 * groups) ∧
        buf = putGroups groups n ++ rest := by
  induction groups generalizing buf result with
  | zero =>
    constructor
    · intro got
      cases buf with
      | nil => cases got
      | cons byte buf =>
        obtain ⟨top, ⟨last, nonzero, rfl, rfl⟩ | ⟨-, more⟩⟩ := (getGroups_cons (by decide)).mp got
        · have one : byte.toNat = 1 := by
            have : byte.toNat ≠ 0 := fun zero => nonzero ⟨UInt8.toNat_inj.mp zero, by decide⟩
            omega
          refine ⟨1, by decide, by decide, by rw [one], ?_⟩
          rw [UInt8.toNat_inj.mp (show byte.toNat = (1 : UInt8).toNat from one)]
          rfl
        · rw [getGroups_over (by decide)] at more
          cases more
    · rintro ⟨n, small, nonzero, rfl, rfl⟩
      obtain rfl : n = 1 := by
        omega
      exact (getGroups_cons (by decide)).mpr ⟨by decide, .inl ⟨by decide, by decide, rfl, rfl⟩⟩
  | succ groups ih =>
    have shift : 63 - 7 * (groups + 1) + 7 = 63 - 7 * groups := by omega
    have power : 2 ^ (63 - 7 * groups) = 128 * 2 ^ (63 - 7 * (groups + 1)) := by
      rw [← shift, Nat.pow_add, Nat.mul_comm]
    have bound : 2 ^ (7 * (groups + 1) + 1) = 128 * 2 ^ (7 * groups + 1) := by
      rw [show 7 * (groups + 1) + 1 = 7 + (7 * groups + 1) by omega, Nat.pow_add]
    have room := Nat.two_pow_pos (7 * groups + 1)
    have place : ∀ low high : Nat, low * 2 ^ (63 - 7 * (groups + 1)) + high * 2 ^ (63 - 7 * groups) =
        (low + 128 * high) * 2 ^ (63 - 7 * (groups + 1)) := fun low high => by
      rw [power, Nat.add_mul, ← Nat.mul_assoc, Nat.mul_comm high 128]
    constructor
    · intro got
      cases buf with
      | nil => cases got
      | cons byte buf =>
        have small := byte.toNat_lt
        obtain ⟨-, ⟨last, nonzero, rfl, rfl⟩ | ⟨more, got⟩⟩ := (getGroups_cons (by omega)).mp got
        · refine ⟨byte.toNat, by omega, fun multi zero => nonzero ⟨UInt8.toNat_inj.mp zero, by omega⟩, rfl, ?_⟩
          rw [putGroups, if_pos (by omega), Nat.mod_eq_of_lt last, UInt8.ofNat_toNat]
          rfl
        · rw [shift] at got
          obtain ⟨high, fits, some, rfl, rfl⟩ := (ih (by omega)).mp got
          have some := some (by omega)
          refine ⟨byte.toNat - 128 + 128 * high, by omega, fun _ => by omega, by rw [Nat.add_assoc, place], ?_⟩
          have above : (byte.toNat - 128 + 128 * high) / 128 = high := by omega
          have below : (byte.toNat - 128 + 128 * high) % 128 + 128 = byte.toNat := by omega
          rw [putGroups, above, if_neg some, below, UInt8.ofNat_toNat]
          rfl
    · rintro ⟨n, small, nonzero, rfl, rfl⟩
      rw [putGroups]
      have digit : ∀ k < 256, (UInt8.ofNat k).toNat = k := fun k small => by
        rw [UInt8.toNat_ofNat', Nat.mod_eq_of_lt small]
      by_cases one : n / 128 = 0
      · have low : n % 128 = n := by omega
        rw [if_pos one, low]
        refine (getGroups_cons (by omega)).mpr ⟨by omega, .inl ⟨?_, fun zero => ?_, ?_, rfl⟩⟩
        · rw [digit n (by omega)]
          omega
        · have := congrArg UInt8.toNat zero.1
          rw [digit n (by omega)] at this
          exact nonzero (by have := zero.2; omega) this
        · rw [digit n (by omega)]
      · rw [if_neg one]
        refine (getGroups_cons (by omega)).mpr ⟨by omega, .inr ⟨?_, ?_⟩⟩
        · rw [digit _ (by omega)]
          omega
        · rw [digit _ (by omega), Nat.add_sub_cancel, shift]
          refine (ih (by omega)).mpr ⟨n / 128, by omega, fun _ => one, ?_, rfl⟩
          rw [Nat.add_assoc, place, Nat.mod_add_div]

theorem getVarint_eq_some : getVarint buf = some (n, rest) ↔ n < 2 ^ 64 ∧ buf = putVarint n ++ rest := by
  have groups : getGroups buf 0 (63 - 7 * 9) = some (n, rest) ↔ _ := getGroups_eq_some (le_refl 9)
  rw [getVarint, putVarint]
  simpa using groups

/-- The members as they are written after their number. -/
def memberBytes (members : List Bytes) : Bytes := members.flatMap fun member => putVarint member.length ++ member

variable {members : List Bytes}

theorem takeMembers_eq_some :
    takeMembers n buf = some (members, rest) ↔
      members.length = n ∧ (∀ member ∈ members, member.length ≤ maxFrameBytes) ∧ buf = memberBytes members ++ rest := by
  induction n generalizing buf rest members with
  | zero =>
    simp only [takeMembers, some.injEq, Prod.mk.injEq, length_eq_zero_iff]
    constructor
    · rintro ⟨rfl, rfl⟩
      exact ⟨rfl, by simp, rfl⟩
    · rintro ⟨rfl, -, rfl⟩
      exact ⟨rfl, rfl⟩
  | succ n ih =>
    simp only [takeMembers, bind_eq_bind, bind_eq_some_iff, Prod.exists, getVarint_eq_some]
    constructor
    · rintro ⟨len, buf, ⟨-, rfl⟩, taken⟩
      split at taken
      · cases taken
      next within =>
        simp only [bind_eq_some_iff, Prod.exists, splitAtChecked_eq_some, ih] at taken
        obtain ⟨member, _, ⟨rfl, rfl⟩, members, _, ⟨rfl, fits, rfl⟩, rfl, rfl⟩ := taken
        refine ⟨rfl, forall_mem_cons.mpr ⟨not_lt.mp within, fits⟩, ?_⟩
        simp [memberBytes]
    · rintro ⟨count, fits, rfl⟩
      cases members with
      | nil => cases count
      | cons member members =>
        obtain ⟨here, fits⟩ := forall_mem_cons.mp fits
        have small : maxFrameBytes < 2 ^ 64 := by decide
        refine ⟨member.length, member ++ (memberBytes members ++ rest), ⟨by omega, by simp [memberBytes]⟩, ?_⟩
        rw [if_neg (not_lt.mpr here)]
        simp only [bind_eq_some_iff, Prod.exists, splitAtChecked_eq_some, ih, pure, some.injEq,
          Prod.mk.injEq]
        exact ⟨_, _, ⟨rfl, rfl⟩, _, _, ⟨succ.inj count, fits, rfl⟩, rfl, rfl⟩

theorem length_le_memberBytes (members : List Bytes) : members.length ≤ (memberBytes members).length := by
  induction members with
  | nil => rfl
  | cons member members ih =>
    have nonempty : 0 < (putVarint member.length).length := by
      rw [putVarint, putGroups]
      split <;> simp
    rw [memberBytes, flatMap_cons, length_append, length_append, length_cons]
    rw [memberBytes] at ih
    omega

/-- A batch decodes exactly from its encoding. -/
theorem decodeBatch_eq_ok (slice : buf.length < 2 ^ 64) :
    decodeBatch buf = .ok members ↔
      encodeBatch members = buf ∧ ∀ member ∈ members, member.length ≤ maxFrameBytes := by
  have parsed : decodeBatch buf = .ok members ↔
      ∃ n rest, getVarint buf = some (n, rest) ∧ takeMembers n rest = some (members, []) := by
    rw [decodeBatch]
    cases getVarint buf with
    | none => simp
    | some read =>
      obtain ⟨n, rest⟩ := read
      cases taken : takeMembers n rest with
      | none => simp [taken]
      | some read =>
        obtain ⟨found, tail⟩ := read
        cases tail <;> simp [taken]
  simp only [parsed, getVarint_eq_some, takeMembers_eq_some, append_nil]
  constructor
  · rintro ⟨_, _, ⟨-, rfl⟩, rfl, fits, rfl⟩
    exact ⟨rfl, fits⟩
  · rintro ⟨rfl, fits⟩
    have count : members.length < 2 ^ 64 := by
      have := length_le_memberBytes members
      rw [show encodeBatch members = putVarint members.length ++ memberBytes members from rfl,
        length_append] at slice
      omega
    exact ⟨_, _, ⟨count, rfl⟩, rfl, fits, rfl⟩

/-- **The wire forms are canonical.** A byte string decodes to a batch exactly when it is the batch's encoding and
the members are within their cap; different fields never have the same signed bytes; and an accepted frame is the
signed bytes of the fields it decodes to and a proof that was verified over them. -/
theorem codecs_canonical :
    (∀ (bytes : Bytes) (members : List Bytes), bytes.length < 2 ^ 64 →
      (decodeBatch bytes = .ok members ↔
        encodeBatch members = bytes ∧ ∀ member ∈ members, member.length ≤ maxFrameBytes)) ∧
    (∀ (scheme scheme' : KeyScheme) (origin origin' : Bytes) (seq seq' : Nat) (msg msg' : Msg)
      (blob blob' : Option Bytes), FrameFits origin seq msg blob → FrameFits origin' seq' msg' blob' →
      framePreimageWithBlob scheme origin seq msg blob = framePreimageWithBlob scheme' origin' seq' msg' blob' →
      scheme = scheme' ∧ origin = origin' ∧ seq = seq' ∧ msg = msg' ∧ blob = blob') ∧
    ∀ (crypto : FrameCrypto) (bytes : Bytes) (origin : Origin) (msg : Msg) (blob : Option Bytes),
      decodeFrameWithBlob crypto bytes = .ok (origin, msg, blob) →
      ∃ scheme key seq proof, origin = .external key ∧ FrameFits key seq msg blob ∧
        bytes = framePreimageWithBlob scheme key seq msg blob ++ proof ∧
        crypto.verify scheme key frameNs (framePreimageWithBlob scheme key seq msg blob) proof = true :=
  ⟨fun _ _ slice => decodeBatch_eq_ok slice,
    fun _ _ _ _ _ _ _ _ _ _ fits fits' same => framePreimage_inj fits fits' same,
    fun _ _ _ _ _ decoded => decodeFrame_ok decoded⟩

/-- A batch of two members, the first of them a frame. -/
theorem codecs_canonical_two :
    let crypto : FrameCrypto := ⟨id, fun _ _ => true, fun _ _ _ _ _ => true⟩
    let msg : Msg := ⟨"tally", [4]⟩
    let frame := framePreimageWithBlob .ed25519 [1] 5 msg none ++ [9]
    decodeBatch (encodeBatch [frame, [8, 9]]) = .ok [frame, [8, 9]] ∧
      decodeFrameWithBlob crypto frame = .ok (.external [1], msg, none) ∧
      ∃ scheme key seq proof, FrameFits key seq msg none ∧
        frame = framePreimageWithBlob scheme key seq msg none ++ proof := by
  intro crypto msg frame
  have decoded : decodeFrameWithBlob crypto frame = .ok (.external [1], msg, none) := by decide +kernel
  obtain ⟨scheme, key, seq, proof, -, fits, bytes, -⟩ := codecs_canonical.2.2 _ _ _ _ _ decoded
  exact ⟨(codecs_canonical.1 _ _ (by decide)).mpr ⟨rfl, by decide⟩, decoded, scheme, key, seq, proof, fits, bytes⟩

end Ducktape
