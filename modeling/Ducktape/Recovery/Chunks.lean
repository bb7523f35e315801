import Ducktape.Lib.Borsh
import Ducktape.Recovery.Journal

/-! # Journal chunks

A record is journaled as physical chunks, each under the record's length and its own offset (`pieces`), and
reassembled by `Records.push`. The journal may be pruned in front and torn at its end.

* `feed_pieces`: the chunks of one record, from any chunk to any later one.
* `feed_aligned`: a window that starts with a record.
* `window_reassembled`: any window gives the records inside it, skips the fragment in front and reports where
  the torn last record starts. -/

namespace Ducktape

open Lib Lib.Borsh Nat List

namespace Chunks

def maxRecordFieldLen : Nat := 2 ^ 21

def headerBytes : Nat := 16

def payloadBytes : Nat := maxRecordFieldLen - headerBytes

/-! ## Splitting -/

/-- The number of chunks of a record. -/
def pieceCount (record : Bytes) : Nat := (record.length + payloadBytes - 1) / payloadBytes

/-- The payload of one chunk. -/
def payload (record : Bytes) (index : Nat) : Bytes := (record.drop (index * payloadBytes)).take payloadBytes

/-- One chunk: the record's length, the chunk's offset, its payload. -/
def piece (record : Bytes) (index : Nat) : Bytes :=
  le 8 record.length ++ (le 8 (index * payloadBytes) ++ payload record index)

def pieces (record : Bytes) : List Bytes := (List.range (pieceCount record)).map (piece record)

/-! ## Reassembling -/

/-- A record whose chunks are still coming. -/
structure Pending where
  position : Nat
  total : Nat
  bytes : Bytes

inductive Start
  | pruned
  | aligned
  deriving DecidableEq

structure Records where
  pending : Option Pending
  start : Start

def Records.new (firstPosition : Nat) : Records := ⟨none, if firstPosition = 0 then .aligned else .pruned⟩

def Records.incompletePosition (records : Records) : Option Nat := records.pending.map Pending.position

/-- A chunk's record length, offset and payload. -/
def readHeader (bytes : Bytes) : Option (Nat × Nat × Bytes) :=
  (readLe 8 bytes).bind fun (total, rest) => (readLe 8 rest).map fun (offset, payload) => (total, offset, payload)

variable (decode : Bytes → Except RecoveryError Record)

/-- Append a chunk to the record it continues. -/
def Pending.extend (pending : Pending) (total offset : Nat) (payload : Bytes) :
    Except RecoveryError (Option (Nat × Record) × Records) :=
  if ¬ (pending.total = total ∧ pending.bytes.length = offset) then
    .error (.corrupt "journal chunks are missing or out of order")
  else if (pending.bytes ++ payload).length ≠ total then
    .ok (none, ⟨some { pending with bytes := pending.bytes ++ payload }, .aligned⟩)
  else (decode (pending.bytes ++ payload)).map fun record => (some (pending.position, record), ⟨none, .aligned⟩)

/-- Take in a chunk: the record it completes, if any. -/
def Records.push (records : Records) (position : Nat) (bytes : Bytes) :
    Except RecoveryError (Option (Nat × Record) × Records) :=
  match readHeader bytes with
  | none => .error (.corrupt "truncated journal chunk header")
  | some (total, offset, payload) =>
    if ¬ ((payload ≠ [] ∧ payload.length ≤ payloadBytes) ∧
        offset + payload.length < 2 ^ 64 ∧ offset + payload.length ≤ total) then
      .error (.corrupt "invalid journal chunk extent")
    -- Only the fragment of a record whose front was pruned is skipped.
    else if records.start = .pruned ∧ offset ≠ 0 then .ok (none, records)
    else
      match records.pending with
      | none =>
        if offset ≠ 0 then .error (.corrupt "journal record starts at nonzero offset")
        else Pending.extend decode ⟨position, total, []⟩ total offset payload
      | some pending => pending.extend decode total offset payload

/-- Feed chunks from a position on: the records they complete, each with the position of its first chunk. -/
def Records.feed (records : Records) : Nat → List Bytes → Except RecoveryError (List (Nat × Record) × Records)
  | _, [] => .ok ([], records)
  | position, chunk :: chunks =>
    (records.push decode position chunk).bind fun pushed =>
      (pushed.2.feed (position + 1) chunks).map fun later => (pushed.1.toList ++ later.1, later.2)

/-! ## Where records lie -/

/-- Every record with the position of its first chunk. -/
def layout : Nat → List Bytes → List (Nat × Bytes)
  | _, [] => []
  | position, record :: records => (position, record) :: layout (position + pieceCount record) records

/-- The record's chunks all lie in the window. -/
def Inside (lo hi : Nat) (placed : Nat × Bytes) : Prop := lo ≤ placed.1 ∧ placed.1 + pieceCount placed.2 ≤ hi

/-- The record starts in the window and goes on after it. -/
def Torn (lo hi : Nat) (placed : Nat × Bytes) : Prop :=
  lo ≤ placed.1 ∧ placed.1 < hi ∧ hi < placed.1 + pieceCount placed.2

instance (lo hi : Nat) : DecidablePred (Inside lo hi) := fun _ => instDecidableAnd

instance (lo hi : Nat) : DecidablePred (Torn lo hi) := fun _ => instDecidableAnd

/-- The records inside the window. -/
def whole (lo hi position : Nat) (records : List Bytes) : List (Nat × Bytes) :=
  (layout position records).filter (Inside lo hi)

/-- Where the torn record starts. -/
def tornAt (lo hi position : Nat) (records : List Bytes) : Option Nat :=
  ((layout position records).find? (Torn lo hi)).map Prod.fst

/-! ## One chunk -/

variable {decode} {record : Bytes} {index : Nat}

theorem payloadBytes_pos : 0 < payloadBytes := by decide

theorem lt_pieceCount : index < pieceCount record ↔ index * payloadBytes < record.length := by
  have := payloadBytes_pos
  rw [pieceCount, lt_div_iff_mul_lt this]
  omega

theorem pieceCount_pos (nonempty : record ≠ []) : 0 < pieceCount record := by
  rw [lt_pieceCount, zero_mul]
  exact length_pos_iff.mpr nonempty

theorem readHeader_piece (word : record.length < 2 ^ 64) (here : index < pieceCount record) :
    readHeader (piece record index) = some (record.length, index * payloadBytes, payload record index) := by
  have offset := lt_pieceCount.mp here
  rw [readHeader, piece, readLe_le (by omega), Option.bind_some]
  dsimp only
  rw [readLe_le (by omega), Option.map_some]

/-- The state amid a record: before its first chunk nothing is pending. -/
def underway (start : Start) (position : Nat) (record : Bytes) (index : Nat) : Records :=
  if index = 0 then ⟨none, start⟩ else ⟨some ⟨position, record.length, record.take (index * payloadBytes)⟩, .aligned⟩

/-- The chunk is of the size its header says. -/
theorem piece_extent (word : record.length < 2 ^ 64) (here : index < pieceCount record) :
    (payload record index ≠ [] ∧ (payload record index).length ≤ payloadBytes) ∧
      index * payloadBytes + (payload record index).length < 2 ^ 64 ∧
      index * payloadBytes + (payload record index).length ≤ record.length := by
  have offset := lt_pieceCount.mp here
  have := payloadBytes_pos
  rw [← length_pos_iff, payload, length_take, length_drop]
  omega

/-- A chunk extends the chunks before it. -/
theorem extend_piece {value : Record} (decodes : decode record = .ok value) (here : index < pieceCount record)
    (start : Start) (position : Nat) :
    Pending.extend decode ⟨position, record.length, record.take (index * payloadBytes)⟩ record.length
        (index * payloadBytes) (payload record index) =
      .ok (if index + 1 < pieceCount record then (none, underway start position record (index + 1))
        else (some (position, value), ⟨none, .aligned⟩)) := by
  have offset := lt_pieceCount.mp here
  have next : (index + 1) * payloadBytes = index * payloadBytes + payloadBytes := succ_mul ..
  have joined : record.take (index * payloadBytes) ++ payload record index =
      record.take ((index + 1) * payloadBytes) := by
    rw [next, take_add, payload]
  have fits : (record.take (index * payloadBytes)).length = index * payloadBytes := by
    rw [length_take]
    omega
  rw [Pending.extend, if_neg (not_not.mpr ⟨rfl, fits⟩), joined, length_take]
  by_cases more : index + 1 < pieceCount record
  · have := lt_pieceCount.mp more
    rw [if_pos more, if_pos (by omega), underway, if_neg (succ_ne_zero index)]
  have := lt_pieceCount.not.mp more
  have all : record.take ((index + 1) * payloadBytes) = record := take_of_length_le (by omega)
  rw [if_neg more, if_neg (by omega), all, decodes]
  rfl

theorem push_piece {start : Start} {position : Nat} {value : Record} (word : record.length < 2 ^ 64)
    (decodes : decode record = .ok value) (here : index < pieceCount record) :
    (underway start position record index).push decode (position + index) (piece record index) =
      .ok (if index + 1 < pieceCount record then (none, underway start position record (index + 1))
        else (some (position, value), ⟨none, .aligned⟩)) := by
  have extended := extend_piece decodes here start position
  rw [Records.push, readHeader_piece word here]
  dsimp only
  rw [if_neg (not_not.mpr (piece_extent word here))]
  by_cases first : index = 0
  · subst first
    simpa [underway] using extended
  · rw [underway, if_neg first, if_neg (by simp)]
    exact extended

/-! ## Many chunks -/

theorem feed_append (records : Records) (position : Nat) (front rest : List Bytes) :
    records.feed decode position (front ++ rest) =
      (records.feed decode position front).bind fun fed =>
        (fed.2.feed decode (position + front.length) rest).map fun later => (fed.1 ++ later.1, later.2) := by
  induction front generalizing records position with
  | nil =>
    rw [nil_append, Records.feed, Except.bind, length_nil, add_zero]
    cases records.feed decode position rest <;> rfl
  | cons chunk front ih =>
    rw [cons_append, Records.feed, Records.feed]
    cases records.push decode position chunk with
    | error e => rfl
    | ok pushed =>
      simp only [Except.bind, ih]
      cases pushed.2.feed decode (position + 1) front with
      | error e => rfl
      | ok fed =>
        have shift : position + 1 + front.length = position + (chunk :: front).length := by
          rw [length_cons]
          omega
        simp only [Except.map, shift]
        cases fed.2.feed decode (position + (chunk :: front).length) rest with
        | error e => rfl
        | ok later => simp

/-- **The chunks of one record**, from one chunk to a later one. -/
theorem feed_pieces (start : Start) (position count : Nat) {value : Record} (word : record.length < 2 ^ 64)
    (decodes : decode record = .ok value) (upTo : index + count ≤ pieceCount record)
    (before : index < pieceCount record) :
    (underway start position record index).feed decode (position + index)
        ((range' index count).map (piece record)) =
      .ok (if index + count < pieceCount record then ([], underway start position record (index + count))
        else ([(position, value)], ⟨none, .aligned⟩)) := by
  induction count generalizing index with
  | zero => rw [add_zero, if_pos before]; rfl
  | succ count ih =>
    rw [range'_succ, map_cons, Records.feed, push_piece word decodes before]
    by_cases more : index + 1 < pieceCount record
    · rw [if_pos more]
      have rest := @ih (index + 1) (by omega) more
      simp only [Except.bind, add_assoc] at rest ⊢
      rw [rest, add_comm 1 count]
      split <;> rfl
    · obtain rfl : count = 0 := by omega
      rw [if_neg more, if_neg (by omega)]
      rfl

/-- Later chunks of a record whose front was pruned. -/
theorem feed_skipped {chunks : List Bytes} (word : record.length < 2 ^ 64)
    (later : ∀ chunk ∈ chunks, ∃ index, index ≠ 0 ∧ index < pieceCount record ∧ chunk = piece record index)
    (position : Nat) :
    (Records.mk none .pruned).feed decode position chunks = .ok ([], ⟨none, .pruned⟩) := by
  induction chunks generalizing position with
  | nil => rfl
  | cons chunk chunks ih =>
    obtain ⟨index, nonzero, here, rfl⟩ := later chunk mem_cons_self
    rw [Records.feed, Records.push, readHeader_piece word here]
    dsimp only
    rw [if_neg (not_not.mpr (piece_extent word here)), if_pos ⟨rfl, mul_ne_zero nonzero payloadBytes_pos.ne'⟩,
      Except.bind, ih fun chunk mem => later chunk (mem_cons_of_mem _ mem)]
    rfl

/-- A front part of a record's chunks, and what follows it. -/
theorem pieces_split {front rest : List Bytes} (split : pieces record = front ++ rest) :
    front = (range' 0 front.length).map (piece record) ∧
      rest = (range' front.length rest.length).map (piece record) ∧
      front.length + rest.length = pieceCount record := by
  have total : front.length + rest.length = pieceCount record := by
    rw [← length_append, ← split, pieces, length_map, length_range]
  have parts : pieces record = (range' 0 front.length).map (piece record) ++
      (range' front.length rest.length).map (piece record) := by
    have ranges := range'_append_1 (s := 0) (m := front.length) (n := rest.length)
    rw [zero_add] at ranges
    rw [pieces, range_eq_range', ← total, ← map_append, ranges]
  rw [split] at parts
  obtain ⟨first, second⟩ := append_inj parts (by simp)
  exact ⟨first, second, total⟩

/-! ## Windows -/

/-- A list of records as the writer leaves it. -/
structure Written (decode : Bytes → Except RecoveryError Record) (value : Bytes → Record) (record : Bytes) : Prop where
  nonempty : record ≠ []
  word : record.length < 2 ^ 64
  decodes : decode record = .ok (value record)

section windows

variable {value : Bytes → Record} {records : List Bytes} {position lo hi : Nat} {window tail : List Bytes}

/-- A front part of a record's chunks, or all of them. -/
theorem feed_front {s : Start} {p : Nat} (written : Written decode value record) {front rest : List Bytes}
    (split : pieces record = front ++ rest) :
    (Records.mk none s).feed decode p front =
      .ok (if front.length < pieceCount record then ([], underway s p record front.length)
        else ([(p, value record)], ⟨none, .aligned⟩)) := by
  obtain ⟨same, -, total⟩ := pieces_split split
  have fed := feed_pieces s p front.length written.word written.decodes (by omega) (pieceCount_pos written.nonempty)
  rwa [← same, zero_add] at fed

theorem le_of_mem_layout {placed : Nat × Bytes} (mem : placed ∈ layout position records) :
    position ≤ placed.1 ∧ placed.2 ∈ records := by
  induction records generalizing position with
  | nil => cases mem
  | cons record records ih =>
    obtain rfl | later := mem_cons.mp mem
    · exact ⟨le_refl _, mem_cons_self⟩
    · obtain ⟨after, listed⟩ := ih later
      exact ⟨by omega, mem_cons_of_mem _ listed⟩

/-- Records from the end of the window on are neither inside nor torn. -/
theorem beyond (lo : Nat) (written : ∀ record ∈ records, Written decode value record) (past : hi ≤ position) :
    whole lo hi position records = [] ∧ tornAt lo hi position records = none := by
  constructor
  · refine filter_eq_nil_iff.mpr fun placed mem kept => ?_
    obtain ⟨after, listed⟩ := le_of_mem_layout mem
    have := pieceCount_pos (written _ listed).nonempty
    obtain ⟨-, ends⟩ := of_decide_eq_true kept
    omega
  · refine Option.map_eq_none_iff.mpr (find?_eq_none.mpr fun placed mem kept => ?_)
    obtain ⟨after, -⟩ := le_of_mem_layout mem
    obtain ⟨-, starts, -⟩ := of_decide_eq_true kept
    omega

/-- Fed from a position on, the window gives the records inside and reports the torn one. -/
def Exact (decode : Bytes → Except RecoveryError Record) (value : Bytes → Record) (state : Records)
    (lo start : Nat) (window : List Bytes) (position : Nat) (records : List Bytes) : Prop :=
  ∃ final, state.feed decode start window =
      .ok ((whole lo (start + window.length) position records).map fun placed => (placed.1, value placed.2), final) ∧
    final.incompletePosition = tornAt lo (start + window.length) position records

theorem whole_cons (lo hi position : Nat) (record : Bytes) (records : List Bytes) :
    whole lo hi position (record :: records) =
      (if Inside lo hi (position, record) then [(position, record)] else []) ++
        whole lo hi (position + pieceCount record) records := by
  rw [whole, layout, filter_cons]
  split <;> simp_all [whole]

theorem tornAt_cons (lo hi position : Nat) (record : Bytes) (records : List Bytes) :
    tornAt lo hi position (record :: records) =
      if Torn lo hi (position, record) then some position
      else tornAt lo hi (position + pieceCount record) records := by
  rw [tornAt, layout, find?_cons]
  split <;> simp_all [tornAt]

/-- **A window that starts with a record.** -/
theorem feed_aligned (start : Start) (written : ∀ record ∈ records, Written decode value record)
    (after : lo ≤ position) (split : records.flatMap pieces = window ++ tail) :
    Exact decode value ⟨none, start⟩ lo position window position records := by
  induction records generalizing position window start with
  | nil =>
    obtain ⟨rfl, -⟩ := append_eq_nil_iff.mp split.symm
    exact ⟨⟨none, start⟩, rfl, rfl⟩
  | cons record records ih =>
    have here := written record mem_cons_self
    have written' := fun record mem => written record (mem_cons_of_mem _ mem)
    obtain ⟨more, rfl, rest⟩ | ⟨cut, front, rest⟩ := append_eq_append_iff.mp split
    · -- The whole record, then the rest of the window.
      have count : (pieces record).length = pieceCount record := by rw [pieces, length_map, length_range]
      have fed := feed_front (p := position) (s := start) here (append_nil (pieces record)).symm
      rw [count, if_neg (lt_irrefl _)] at fed
      obtain ⟨final, later, torn⟩ := ih .aligned written' (le_add_right_of_le after) rest
      have ends : position + (pieces record ++ more).length = position + pieceCount record + more.length := by
        rw [length_append, count]
        omega
      refine ⟨final, ?_, ?_⟩
      · rw [feed_append, fed, Except.bind, count, later, ends, whole_cons, if_pos ⟨after, Nat.le_add_right ..⟩]
        rfl
      · rw [torn, ends, tornAt_cons, if_neg fun torn => Nat.not_lt.mpr (Nat.le_add_right ..) torn.2.2]
    · -- The window ends in this record.
      have fed := feed_front (p := position) (s := start) here front
      obtain ⟨-, -, total⟩ := pieces_split front
      have past : position + window.length ≤ position + pieceCount record := by omega
      obtain ⟨bare, untorn⟩ := beyond lo written' past
      by_cases partly : window.length < pieceCount record
      · refine ⟨underway start position record window.length, ?_, ?_⟩
        · have out : ¬ Inside lo (position + window.length) (position, record) := fun inside =>
            not_le.mpr partly (le_of_add_le_add_left inside.2)
          rw [fed, if_pos partly, whole_cons, if_neg out, bare]
          rfl
        · rw [tornAt_cons, untorn, underway]
          by_cases empty : window.length = 0
          · rw [if_pos empty, if_neg fun torn => absurd torn.2.1 (by simp [empty])]
            rfl
          · rw [if_neg empty, if_pos ⟨after, Nat.lt_add_of_pos_right (Nat.pos_of_ne_zero empty), by simpa using partly⟩]
            rfl
      · refine ⟨⟨none, .aligned⟩, ?_, ?_⟩
        · rw [fed, if_neg partly, whole_cons, if_pos ⟨after, Nat.add_le_add_left (Nat.not_lt.mp partly) _⟩, bare]
          rfl
        · rw [tornAt_cons, untorn, if_neg fun torn => partly (lt_of_add_lt_add_left torn.2.2)]
          rfl

/-- A window whose start may lie amid a record. -/
theorem feed_pruned (position : Nat) {front : List Bytes} (written : ∀ record ∈ records, Written decode value record)
    (split : records.flatMap pieces = front ++ (window ++ tail)) :
    Exact decode value ⟨none, .pruned⟩ (position + front.length) (position + front.length) window position records := by
  induction records generalizing position front with
  | nil =>
    obtain ⟨rfl, rest⟩ := append_eq_nil_iff.mp split.symm
    obtain ⟨rfl, -⟩ := append_eq_nil_iff.mp rest
    exact ⟨⟨none, .pruned⟩, rfl, rfl⟩
  | cons record records ih =>
    have here := written record mem_cons_self
    have written' := fun record mem => written record (mem_cons_of_mem _ mem)
    by_cases aligned : front = []
    · subst aligned
      exact feed_aligned _ written (le_refl _) split
    have cutOff := length_pos_iff.mpr aligned
    -- The first record starts in front of the window.
    have skipped : ∀ hi, whole (position + front.length) hi position (record :: records) =
          whole (position + front.length) hi (position + pieceCount record) records ∧
        tornAt (position + front.length) hi position (record :: records) =
          tornAt (position + front.length) hi (position + pieceCount record) records := by
      intro hi
      have out : ¬ position + front.length ≤ (position, record).1 := Nat.not_le.mpr (Nat.lt_add_of_pos_right cutOff)
      rw [whole_cons, tornAt_cons, if_neg fun inside => out inside.1, if_neg fun torn => out torn.1]
      exact ⟨rfl, rfl⟩
    unfold Exact
    rw [(skipped _).1, (skipped _).2]
    obtain ⟨more, rfl, rest⟩ | ⟨cut, parts, rest⟩ := append_eq_append_iff.mp split
    · -- All of it does.
      have count : (pieces record).length = pieceCount record := by rw [pieces, length_map, length_range]
      rw [length_append, count, ← add_assoc]
      exact ih _ written' rest
    · -- Its rest is the fragment to skip.
      obtain ⟨-, same, total⟩ := pieces_split parts
      have later : ∀ chunk ∈ cut, ∃ index, index ≠ 0 ∧ index < pieceCount record ∧ chunk = piece record index := by
        intro chunk mem
        rw [same, mem_map] at mem
        obtain ⟨index, listed, rfl⟩ := mem
        have := mem_range'_1.mp listed
        exact ⟨index, by omega, by omega, rfl⟩
      obtain ⟨more, rfl, onward⟩ | ⟨_, rfl, -⟩ := append_eq_append_iff.mp rest.symm
      · have goesOn : position + front.length + cut.length = position + pieceCount record := by omega
        have starts : position + front.length ≤ position + pieceCount record := by omega
        obtain ⟨final, fed, torn⟩ := feed_aligned .pruned written' starts onward
        refine ⟨final, ?_, ?_⟩
        · rw [feed_append, feed_skipped here.word later, Except.bind, goesOn, fed, length_append,
            ← add_assoc, goesOn]
          rfl
        · rw [torn, length_append, ← add_assoc, goesOn]
      · rw [length_append] at total
        have past : position + front.length + window.length ≤ position + pieceCount record := by omega
        obtain ⟨bare, untorn⟩ := beyond (position + front.length) written' past
        refine ⟨⟨none, .pruned⟩, ?_, untorn.symm⟩
        rw [feed_skipped here.word fun chunk mem => later chunk (mem_append_left _ mem), bare]
        rfl

/-- **Any window of the journal is reassembled exactly.** -/
theorem window_reassembled {front : List Bytes} (written : ∀ record ∈ records, Written decode value record)
    (split : records.flatMap pieces = front ++ (window ++ tail)) :
    ∃ final, (Records.new front.length).feed decode front.length window =
        .ok ((whole front.length (front.length + window.length) 0 records).map fun placed =>
          (placed.1, value placed.2), final) ∧
      final.incompletePosition = tornAt front.length (front.length + window.length) 0 records := by
  rw [Records.new]
  by_cases aligned : front.length = 0
  · obtain rfl := List.length_eq_zero_iff.mp aligned
    rw [if_pos aligned]
    exact feed_aligned _ written (Nat.le_refl _) split
  · rw [if_neg aligned]
    have pruned := feed_pruned 0 written split
    rwa [Nat.zero_add] at pruned

/-- A window from inside a record of two chunks to inside another. -/
theorem window_reassembled_torn :
    ∃ long, pieceCount long = 2 ∧ ∃ final, (Records.new 1).feed (fun bytes => .ok (.pinned bytes)) 1
          [piece long 1, piece [2] 0, piece long 0] = .ok ([(2, .pinned [2])], final) ∧
      final.incompletePosition = some 3 := by
  have one : pieceCount [2] = 1 := by decide
  obtain ⟨long, two, word⟩ : ∃ long : Bytes, pieceCount long = 2 ∧ long.length < 2 ^ 64 := by
    refine ⟨replicate (payloadBytes + 1) 0, ?_, ?_⟩
    · rw [pieceCount, length_replicate]
      decide
    · rw [length_replicate]
      decide
  have written : ∀ record ∈ [long, [2], long], Written (fun bytes => .ok (.pinned bytes)) .pinned record := by
    have nonempty : long ≠ [] := by
      rintro rfl
      cases two
    simp only [mem_cons, not_mem_nil, or_false]
    rintro _ (rfl | rfl | rfl)
    · exact ⟨nonempty, word, rfl⟩
    · exact ⟨by decide, by decide, rfl⟩
    · exact ⟨nonempty, word, rfl⟩
  have split : [long, [2], long].flatMap pieces =
      [piece long 0] ++ ([piece long 1, piece [2] 0, piece long 0] ++ [piece long 1]) := by
    simp [pieces, two, one, range_succ]
  obtain ⟨final, fed, torn⟩ := window_reassembled written split
  refine ⟨long, two, final, fed.trans ?_, torn.trans ?_⟩
  · simp [whole, layout, Inside, two, one]
  · simp [tornAt, layout, Torn, two, one]

end windows

end Chunks

end Ducktape
