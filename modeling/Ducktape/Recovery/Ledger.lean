import Ducktape.Lib.Log
import Ducktape.Lib.Lockstep
import Ducktape.Recovery.Recover

/-! # The ledger

What a journal holds is a ledger: entries, each a pin, a cutover or a block in full, and at most one
block in flight after them. The records of a block read back as the block (`assemble_openingRecords`),
and both readers get through a ledger, in flight block included: serving peers
(`readFinalizedFrames_ledger`) and replaying at boot (`recover_ledger`) never find it corrupt. -/

namespace Ducktape

open Lib List Recovery PendingBlock Record

/-! ## Reading a block back -/

/-- Everything a block writes before its seal. -/
def openingRecords (height : Nat) (frame : Bytes) (prepared : PreparedWork) (source : BlockSource)
    (witness : Option Witness) : List Record :=
  blockRecords height frame prepared source ++ (witness.map (witnessRecords height)).getD []

/-- The block under assembly before its schedule closed. -/
def PendingBlock.collecting (height : Nat) (frame : Bytes) (source : BlockSource)
    (calls : List PreparedCall) (deliveries : List PreparedDelivery) : PendingBlock :=
  ⟨height, frame, source, ⟨none, calls, deliveries⟩, .opened, [], none⟩

/-- The block under assembly once its schedule closed. -/
def PendingBlock.scheduled (height : Nat) (frame : Bytes) (prepared : PreparedWork)
    (source : BlockSource) (reads : List Observed) (witness : Option Witness) : PendingBlock :=
  ⟨height, frame, source, prepared, .closed, reads, witness⟩

section Assemble

variable (height : Nat) (frame : Bytes) (source : BlockSource) (prepared : PreparedWork) {n : Nat}
  {units : List Observed}

/-- The prepared calls, in order. -/
theorem assemble_calls (held calls : List PreparedCall) :
    (calls.map (preparedCall height)).foldlM assemble
        (some (.collecting height frame source held []))
      = .ok (some (.collecting height frame source (held ++ calls) [])) := by
  induction calls generalizing held with
  | nil => simp [pure, Except.pure]
  | cons call calls ih =>
    have step : assemble (some (.collecting height frame source held []))
        (.preparedCall height call)
        = .ok (some (.collecting height frame source (held ++ [call]) [])) := by
      simp [assemble, bind, Except.bind, expect, collecting, addCall]
    rw [map_cons, foldlM_cons_of_ok step, ih]
    simp

/-- The prepared deliveries, in order. -/
theorem assemble_deliveries (calls : List PreparedCall) (held deliveries : List PreparedDelivery) :
    (deliveries.map (preparedDelivery height)).foldlM assemble
        (some (.collecting height frame source calls held))
      = .ok (some (.collecting height frame source calls (held ++ deliveries))) := by
  induction deliveries generalizing held with
  | nil => simp [pure, Except.pure]
  | cons delivery deliveries ih =>
    have step : assemble (some (.collecting height frame source calls held))
        (.preparedDelivery height delivery)
        = .ok (some (.collecting height frame source calls (held ++ [delivery]))) := by
      simp [assemble, bind, Except.bind, expect, collecting, addDelivery]
    rw [map_cons, foldlM_cons_of_ok step, ih]
    simp

/-- The records that open a block read back as the block. -/
theorem assemble_blockRecords :
    (blockRecords height frame prepared source).foldlM assemble none
      = .ok (some (.scheduled height frame prepared source [] none)) := by
  have opened : assemble none (.block height frame source)
      = .ok (some (.collecting height frame source [] [])) := rfl
  have closed : assemble
      (some (.collecting height frame source ([] ++ prepared.calls) ([] ++ prepared.deliveries)))
      (.schedule height prepared.calls.length prepared.deliveries.length prepared.advance)
      = .ok (some (.scheduled height frame prepared source [] none)) := by
    simp [assemble, bind, Except.bind, expect, collecting, close, scheduled]
  rw [blockRecords, cons_append, cons_append, foldlM_cons_of_ok opened, append_assoc,
    foldlM_append_of_ok (assemble_calls height frame source [] prepared.calls),
    foldlM_append_of_ok (assemble_deliveries height frame source _ [] prepared.deliveries), foldlM_cons_of_ok closed]
  rfl

/-- Units without entries at the end make no difference to a grown list. -/
theorem growUnits_of_le (short : units.length ≤ n) : (growUnits units n).length = n := by
  simp [growUnits]; omega
theorem growUnits_succ (short : units.length ≤ n) :
    growUnits units (n + 1) = growUnits units n ++ [⟨[]⟩] := by
  simp [growUnits, Nat.succ_sub short, replicate_succ']

theorem growUnits_grown (grown : units.length = n) : growUnits units n = units := by
  simp [growUnits, grown]
theorem modify_last {α : Type} (front : List α) (last : α) (f : α → α) :
    (front ++ [last]).modify front.length f = front ++ [f last] := by
  induction front with
  | nil => rfl
  | cons head front ih => simpa using ih

/-- The entries of the last unit, in order. -/
theorem assemble_entries (units : List Observed) (held entries : List Trace) :
    (entries.map (trace height units.length)).foldlM assemble
        (some (.scheduled height frame prepared source (units ++ [⟨held⟩]) none))
      = .ok (some (.scheduled height frame prepared source (units ++ [⟨held ++ entries⟩]) none)) := by
  induction entries generalizing held with
  | nil => simp [pure, Except.pure]
  | cons entry entries ih =>
    have step : assemble (some (.scheduled height frame prepared source (units ++ [⟨held⟩]) none))
        (.trace height units.length entry)
        = .ok (some (.scheduled height frame prepared source (units ++ [⟨held ++ [entry]⟩]) none)) := by
      simp [assemble, bind, Except.bind, expect, scheduled, addTrace, growUnits_grown, modify_last]
    rw [map_cons, foldlM_cons_of_ok step, ih]
    simp

variable (reads : List Observed)

/-- One unit's entries extend what was read of the units before it. -/
theorem assemble_unitRecords (unit : Observed) (short : reads.length ≤ n) :
    ∃ reads', (unitRecords height (unit, n)).foldlM assemble
        (some (.scheduled height frame prepared source reads none))
      = .ok (some (.scheduled height frame prepared source reads' none)) ∧
      reads'.length ≤ n + 1 ∧ growUnits reads' (n + 1) = growUnits reads n ++ [unit] := by
  obtain ⟨trace⟩ := unit
  cases trace with
  | nil => exact ⟨reads, rfl, by omega, growUnits_succ short⟩
  | cons entry entries =>
    have step : assemble (some (.scheduled height frame prepared source reads none))
        (.trace height n entry)
        = .ok (some (.scheduled height frame prepared source (growUnits reads n ++ [⟨[entry]⟩]) none)) := by
      have fits : ¬ n + 1 < reads.length := by omega
      have pushed := modify_last (growUnits reads n) ⟨[]⟩ fun o => ⟨o.trace ++ [entry]⟩
      rw [growUnits_of_le short] at pushed
      simp [assemble, bind, Except.bind, expect, scheduled,
        addTrace, fits, growUnits_succ short, pushed]
    have rest := assemble_entries height frame source prepared (growUnits reads n) [entry] entries
    rw [growUnits_of_le short] at rest
    refine ⟨growUnits reads n ++ [⟨entry :: entries⟩], ?_, ?_, ?_⟩
    · simp only [unitRecords, map_cons]
      rw [foldlM_cons_of_ok step, rest]
      rfl
    · simp [growUnits_of_le short]
    · rw [growUnits_grown (by simp [growUnits_of_le short])]

/-- The units' entries read back as the units. -/
theorem assemble_units (units : List Observed) (short : reads.length ≤ n) :
    ∃ reads', ((units.zipIdx n).flatMap (unitRecords height)).foldlM assemble
        (some (.scheduled height frame prepared source reads none))
      = .ok (some (.scheduled height frame prepared source reads' none)) ∧
      reads'.length ≤ n + units.length ∧
      growUnits reads' (n + units.length) = growUnits reads n ++ units := by
  induction units generalizing reads n with
  | nil => exact ⟨reads, rfl, short, by simp⟩
  | cons unit units ih =>
    obtain ⟨mid, read, within, grown⟩ := assemble_unitRecords height frame source prepared
      reads unit short
    obtain ⟨reads', rest, within', grown'⟩ := ih mid within
    have count : n + (unit :: units).length = n + 1 + units.length := by
      rw [length_cons]; omega
    refine ⟨reads', ?_, by omega, ?_⟩
    · rw [zipIdx_cons, flatMap_cons, foldlM_append_of_ok read, rest]
    · rw [count, grown', grown, append_assoc]
      rfl

/-- The records of a witness read back as the witness. -/
theorem assemble_witnessRecords (witness : Witness) :
    (witnessRecords height witness).foldlM assemble
        (some (.scheduled height frame prepared source [] none))
      = .ok (some (.scheduled height frame prepared source [] (some witness))) := by
  obtain ⟨reads, read, within, grown⟩ := assemble_units height frame source prepared [] witness.units
    (le_refl 0)
  rw [Nat.zero_add] at grown
  change growUnits reads witness.units.length = witness.units at grown
  have closed : assemble (some (.scheduled height frame prepared source reads none))
      (.witnessed height witness.units.length)
      = .ok (some (.scheduled height frame prepared source [] (some witness))) := by
    have fits : ¬ witness.units.length < reads.length := by omega
    simp [assemble, bind, Except.bind, expect, scheduled, closeWitness, fits, grown]
  rw [witnessRecords, foldlM_append_of_ok read, foldlM_cons_of_ok closed]
  rfl

/-- Everything a block writes before its seal reads back as the block. -/
theorem assemble_openingRecords (witness : Option Witness) :
    (openingRecords height frame prepared source witness).foldlM assemble none
      = .ok (some (.scheduled height frame prepared source [] witness)) := by
  rw [openingRecords, foldlM_append_of_ok (assemble_blockRecords height frame source prepared)]
  cases witness with
  | none => rfl
  | some witness => exact assemble_witnessRecords height frame source prepared witness

end Assemble

/-! ## Entries -/

/-- A block in full: an applied one with its witness, a caught-up one as its peer claimed. -/
structure SettledBlock where
  frame : Bytes
  prepared : PreparedWork
  source : BlockSource
  witness : Option Witness
  outcome : BlockSeal
  witnessed : outcome.disposition ≠ .rejected → witness.isSome
  verified : source.verify outcome = .ok ()

namespace SettledBlock

variable (block : SettledBlock)

/-- The block's records before its seal. -/
def opening : List Record :=
  openingRecords block.outcome.height block.frame block.prepared block.source block.witness

/-- The block's records. -/
def records : List Record := block.opening ++ [.sealed block.outcome]

end SettledBlock

/-- What a journal is made of. -/
inductive Entry
  | pin (frame : Bytes)
  | cutover (epoch viewBase : Nat) (participants residents : List Bytes)
  | block (settled : SettledBlock)
  /-- A batch the replay window refused: a seal with no block. -/
  | refused (outcome : BlockSeal)

namespace Entry

/-- An entry's records. -/
def records : Entry → List Record
  | .pin frame => [.pinned frame]
  | .cutover epoch viewBase participants residents => [.cutover epoch viewBase participants residents]
  | .block settled => settled.records
  | .refused outcome => [.sealed outcome]

/-- The height an entry settles. -/
def height? : Entry → Option Nat
  | .pin _ | .cutover .. => none
  | .block settled => some settled.outcome.height
  | .refused outcome => some outcome.height

/-- Is this a refused batch? -/
def isRefused : Entry → Bool
  | .refused _ => true
  | _ => false

end Entry

/-- The records of a list of entries. -/
def ledgerRecords (entries : List Entry) : List Record := entries.flatMap Entry.records

theorem ledgerRecords_append (entries more : List Entry) :
    ledgerRecords (entries ++ more) = ledgerRecords entries ++ ledgerRecords more :=
  flatMap_append

theorem ledgerRecords_cons (entry : Entry) (entries : List Entry) (tail : List Record) :
    ledgerRecords (entry :: entries) ++ tail = entry.records ++ (ledgerRecords entries ++ tail) := by
  simp [ledgerRecords]

/-- The start of a block that was not sealed, above every height of `entries`. -/
def InFlight (entries : List Entry) (tail : List Record) : Prop :=
  tail = [] ∨ ∃ height frame prepared source witness,
    tail <+: openingRecords height frame prepared source witness ∧
    ∀ entry ∈ entries, ∀ below, entry.height? = some below → below < height

/-- The heights a ledger settles. -/
def settledHeights (entries : List Entry) : List Nat := entries.filterMap Entry.height?

/-- Records of a ledger with increasing heights and of at most one block in flight. -/
structure Ledgered (entries : List Entry) (tail records : List Record) : Prop where
  records_eq : records = ledgerRecords entries ++ tail
  increasing : (settledHeights entries).Pairwise (· < ·)
  inFlight : InFlight entries tail

/-- Does a record open or seal a block? -/
def Record.marks : Record → Bool
  | .block .. | .sealed _ => true
  | _ => false

/-- What an opening holds after its block record. -/
def bodyRecords (height : Nat) (prepared : PreparedWork) (witness : Option Witness) : List Record :=
  prepared.calls.map (.preparedCall height) ++ prepared.deliveries.map (.preparedDelivery height) ++
    [.schedule height prepared.calls.length prepared.deliveries.length prepared.advance] ++
    (witness.map (witnessRecords height)).getD []

variable {body : List Record}

section Opening

variable {height : Nat} {frame : Bytes} {source : BlockSource} {prepared : PreparedWork}
  {witness : Option Witness} {record : Record}

theorem openingRecords_eq : openingRecords height frame prepared source witness
    = .block height frame source :: bodyRecords height prepared witness := by
  simp [openingRecords, blockRecords, bodyRecords]

/-- A block's records start with its frame. -/
theorem cons_prefix_opening
    (start : record :: body <+: openingRecords height frame prepared source witness) :
    record = .block height frame source ∧ body <+: bodyRecords height prepared witness :=
  cons_prefix_cons.mp (openingRecords_eq ▸ start)

theorem marks_of_mem_body (mem : record ∈ bodyRecords height prepared witness) :
    record.marks = false ∧ record.height? = some height := by
  simp only [bodyRecords, mem_append, mem_map, mem_singleton] at mem
  rcases mem with ((⟨call, -, rfl⟩ | ⟨delivery, -, rfl⟩) | rfl) | mem
  · exact ⟨rfl, rfl⟩
  · exact ⟨rfl, rfl⟩
  · exact ⟨rfl, rfl⟩
  cases witness with
  | none => simp at mem
  | some witness =>
    simp only [Option.map_some, Option.getD_some, witnessRecords, mem_append,
      mem_flatMap, unitRecords, mem_map, mem_singleton] at mem
    rcases mem with ⟨unit, -, trace, -, rfl⟩ | rfl
    · exact ⟨rfl, rfl⟩
    · exact ⟨rfl, rfl⟩

end Opening

/-- A block's records are all of its height. -/
theorem SettledBlock.records_height (block : SettledBlock) :
    ∀ record ∈ block.records, record.height? = some block.outcome.height := by
  intro record mem
  rw [SettledBlock.records, SettledBlock.opening, openingRecords_eq] at mem
  simp only [cons_append, mem_cons, mem_append, not_mem_nil, or_false] at mem
  rcases mem with rfl | mem | rfl
  · rfl
  · exact (marks_of_mem_body mem).2
  · rfl

/-- A block in flight starts with its block record. -/
theorem InFlight.shape {entries : List Entry} {tail : List Record} (flight : InFlight entries tail) :
    tail = [] ∨ ∃ height frame source body, tail = .block height frame source :: body ∧
      (∀ record ∈ body, record.marks = false ∧ record.height? = some height) ∧
      ∀ entry ∈ entries, ∀ below, entry.height? = some below → below < height := by
  rcases flight with rfl | ⟨height, frame, prepared, source, witness, start, above⟩
  · exact .inl rfl
  cases tail with
  | nil => exact .inl rfl
  | cons record body =>
    obtain ⟨rfl, within⟩ := cons_prefix_opening start
    exact .inr ⟨height, frame, source, body, rfl,
      fun r mem => marks_of_mem_body (within.subset mem), above⟩

/-! ## Crashes -/

section Crash

variable {entries : List Entry} {tail records : List Record}

/-- A part of an entry is the start of a block that was not sealed. -/
theorem Entry.inFlight_of_part {entry : Entry} {part : List Record} (start : part <+: entry.records)
    (proper : part ≠ entry.records)
    (above : ∀ before ∈ entries, ∀ below height, before.height? = some below →
      entry.height? = some height → below < height) : InFlight entries part := by
  have single : ∀ record : Record, entry.records = [record] → part = [] := by
    intro record whole
    rw [whole] at start proper
    rcases prefix_concat_iff.mp (nil_append [record] ▸ start) with full | empty
    · exact absurd full proper
    · exact prefix_nil.mp empty
  cases entry with
  | pin | cutover | refused => exact .inl (single _ rfl)
  | block settled =>
    refine .inr ⟨settled.outcome.height, settled.frame, settled.prepared, settled.source,
      settled.witness, ?_, fun before mem below eq => above before mem below _ eq rfl⟩
    rcases prefix_concat_iff.mp start with full | short
    · exact absurd full proper
    · exact short

theorem settledHeights_of_cut {before : List Entry} (cut : before <+: entries)
    (increasing : (settledHeights entries).Pairwise (· < ·)) :
    (settledHeights before).Pairwise (· < ·) :=
  increasing.sublist (cut.sublist.filterMap _)

/-- Where a crash cut the journal: between entries, in one, or in the block in flight. -/
def CutAt (entries entries' : List Entry) (tail tail' : List Record) : Prop :=
  tail' = [] ∨ (∃ next, entries' ++ [next] <+: entries ∧ tail' <+: next.records ∧ tail' ≠ next.records) ∨
    entries' = entries ∧ tail' <+: tail

variable {left : List Record}

/-- A crash leaves whole entries, and the start of the next one or of the block in flight. -/
theorem Ledgered.crash_parts (ledger : Ledgered entries tail records) (cut : left <+: records) :
    ∃ entries' tail', entries' <+: entries ∧ Ledgered entries' tail' left ∧
      CutAt entries entries' tail tail' := by
  rw [ledger.records_eq] at cut
  rcases prefix_append_cases cut with within | ⟨rest, rfl, short⟩
  · obtain ⟨done, part, before, rfl, ends⟩ := crash_cut entries within
    refine ⟨done, part, before, ⟨rfl, settledHeights_of_cut before ledger.increasing, ?_⟩, ?_⟩
    · rcases ends with rfl | ⟨next, upTo, start, proper⟩
      · exact .inl rfl
      · have increasing := settledHeights_of_cut upTo ledger.increasing
        rw [settledHeights, filterMap_append, pairwise_append] at increasing
        exact Entry.inFlight_of_part start proper fun earlier mem below height at_below at_height =>
          increasing.2.2 below (mem_filterMap.mpr ⟨earlier, mem, at_below⟩) height
            (mem_filterMap.mpr ⟨next, by simp, at_height⟩)
    · exact ends.imp id .inl
  · refine ⟨entries, rest, prefix_rfl, ⟨rfl, ledger.increasing, ?_⟩, .inr (.inr ⟨rfl, short⟩)⟩
    rcases ledger.inFlight with rfl | ⟨height, frame, prepared, source, witness, start, above⟩
    · exact .inl (prefix_nil.mp short)
    · exact .inr ⟨height, frame, prepared, source, witness, short.trans start, above⟩

/-- What a crash leaves of a ledger is a ledger. -/
theorem Ledgered.crash (ledger : Ledgered entries tail records) (cut : left <+: records) :
    ∃ entries' tail', entries' <+: entries ∧ Ledgered entries' tail' left := by
  obtain ⟨entries', tail', within, left, -⟩ := ledger.crash_parts cut
  exact ⟨entries', tail', within, left⟩

end Crash

/-! ## Serving -/

section Serve

variable {after upTo limit : Nat} {pending : Option OpenFrame} {out : List JournalFrame}
  {tail : List Record} {height : Nat} {frame : Bytes} {source : BlockSource}

/-- A full collection ends. -/
theorem collectFrames_full (full : limit ≤ out.length) (records : List Record) :
    collectFrames after upTo limit records pending out = .ok (pending, out) := by
  cases records <;> simp [collectFrames, full]

/-- The records between a block and its seal are passed over. -/
theorem collectFrames_body (body : List Record) (unmarked : ∀ record ∈ body, record.marks = false)
    (records : List Record) :
    collectFrames after upTo limit (body ++ records) pending out
      = collectFrames after upTo limit records pending out := by
  induction body with
  | nil => rfl
  | cons record body ih =>
    have rest := ih fun r mem => unmarked r (mem_cons_of_mem _ mem)
    by_cases full : limit ≤ out.length
    · rw [collectFrames_full full, collectFrames_full full]
    have plain := unmarked record mem_cons_self
    rw [cons_append, ← rest]
    cases record with
    | block | sealed => cases plain
    | _ => simp only [collectFrames, if_neg full]

/-- One block: before the range, past it, or served. -/
theorem collectFrames_block (settled : SettledBlock) (records : List Record)
    (out : List JournalFrame) :
    (∃ out', collectFrames after upTo limit (settled.records ++ records) none out
      = .ok (none, out')) ∨
    ∃ out', collectFrames after upTo limit (settled.records ++ records) none out
      = collectFrames after upTo limit records none out' := by
  by_cases full : limit ≤ out.length
  · exact .inl ⟨out, collectFrames_full full _⟩
  have body : ∀ (pending : Option OpenFrame) rest,
      collectFrames after upTo limit
        (bodyRecords settled.outcome.height settled.prepared settled.witness ++ rest) pending out
        = collectFrames after upTo limit rest pending out := fun pending rest =>
    collectFrames_body _ (fun _ mem => (marks_of_mem_body mem).1) rest
  rw [SettledBlock.records, SettledBlock.opening, openingRecords_eq, append_assoc,
    cons_append, collectFrames, if_neg full]
  by_cases early : settled.outcome.height ≤ after
  · rw [if_pos early, body, singleton_append, collectFrames, if_neg full]
    exact .inr ⟨out, if_pos early⟩
  rw [if_neg early]
  by_cases late : upTo < settled.outcome.height
  · exact .inl ⟨out, if_pos late⟩
  rw [if_neg late, body, singleton_append, collectFrames, if_neg full,
    if_neg early, if_neg late, if_neg (not_not.mpr rfl), settled.verified]
  exact .inr ⟨_, rfl⟩

variable (checkpoint : Option Nat) (entries : List Entry)

/-- A ledger without refused batches is served: up to a block in flight, nothing is corrupt. -/
theorem collectFrames_ledger (kept : ∀ entry ∈ entries, entry.isRefused = false)
    (stops : ∀ out, ∃ out', collectFrames after upTo limit tail none out = .ok (none, out')) :
    ∃ out', collectFrames after upTo limit (ledgerRecords entries ++ tail) none out
      = .ok (none, out') := by
  induction entries generalizing out with
  | nil => exact stops out
  | cons entry entries ih =>
    have rest : ∀ out, ∃ out', collectFrames after upTo limit (ledgerRecords entries ++ tail) none out
        = .ok (none, out') := fun out => ih fun e mem => kept e (mem_cons_of_mem _ mem)
    rw [ledgerRecords_cons]
    cases entry with
    | pin frame =>
      obtain ⟨out', served⟩ := rest out
      refine ⟨out', Eq.trans ?_ served⟩
      exact collectFrames_body [.pinned frame] (by simp [marks]) _
    | cutover epoch viewBase participants residents =>
      obtain ⟨out', served⟩ := rest out
      refine ⟨out', Eq.trans ?_ served⟩
      exact collectFrames_body [.cutover epoch viewBase participants residents] (by simp [marks]) _
    | refused outcome => exact absurd (kept _ mem_cons_self) (by simp [Entry.isRefused])
    | block settled =>
      rcases collectFrames_block settled (ledgerRecords entries ++ tail) out with
        done | ⟨out', goes⟩
      · exact done
      · obtain ⟨out'', served⟩ := rest out'
        exact ⟨out'', goes.trans served⟩

variable (journal : Journal)

/-- Every indexed position holds the block record of its height. -/
theorem Journal.heightIndex_block {position : Nat} (mem : (height, position) ∈ journal.heightIndex) :
    journal.start ≤ position ∧ ∃ frame source,
      journal.records[position - journal.start]? = some (.block height frame source) := by
  let indexed (index : HeightIndex) : Prop := ∀ entry ∈ index, ∃ frame source,
    (Record.block entry.1 frame source, entry.2) ∈ journal.records.zipIdx journal.start
  have folded : indexed journal.heightIndex := by
    refine List.foldlRecOn _ _ (by simp [indexed]) ?_
    rintro index ih ⟨record, p⟩ listed entry mem
    cases record with
    | block h frame source =>
      simp only [HeightIndex.insert, mem_append, mem_filter, mem_cons] at mem
      rcases mem with old | rfl | old
      · exact ih entry old.1
      · exact ⟨frame, source, listed⟩
      · exact ih entry old.1
    | _ => exact ih entry mem
  obtain ⟨frame, source, located⟩ := folded _ mem
  obtain ⟨above, found⟩ := mk_mem_zipIdx_iff_le_and_getElem?_sub.mp located
  exact ⟨above, frame, source, found⟩

/-- A journal with a block record has a last one. -/
theorem Journal.lastBlockPosition_of_mem (mem : .block height frame source ∈ journal.records) :
    ∃ position, journal.lastBlockPosition = some position := by
  rw [← zipIdx_map_fst journal.start journal.records] at mem
  obtain ⟨⟨record, position⟩, located, rfl⟩ := mem_map.mp mem
  rw [← Option.isSome_iff_exists, Journal.lastBlockPosition, Option.isSome_map, getLast?_isSome]
  refine ne_nil_of_mem (mem_filter.mpr ⟨located, ?_⟩)
  rfl

/-- A block record of an entry is its first. -/
theorem Entry.records_block {entry : Entry} {i : Nat}
    (at_i : entry.records[i]? = some (.block height frame source)) : i = 0 := by
  have single : ∀ record : Record, [record][i]? = some (.block height frame source) → i = 0 := by
    intro record at_i
    have := (List.getElem?_eq_some_iff.mp at_i).1
    simpa using this
  cases entry with
  | pin | cutover | refused => exact single _ at_i
  | block settled =>
    simp only [Entry.records, SettledBlock.records] at at_i
    rcases Nat.lt_or_ge i settled.opening.length with within | past
    · rw [getElem?_append_left within, SettledBlock.opening, openingRecords_eq] at at_i
      cases i with
      | zero => rfl
      | succ i =>
        have mem := mem_of_getElem? (by simpa using at_i)
        exact absurd (marks_of_mem_body mem).1 (by simp [marks])
    · rw [getElem?_append_right past] at at_i
      obtain ⟨last, sealed⟩ := List.getElem?_eq_some_iff.mp at_i
      simp at sealed

/-- A block record of a ledger starts an entry, or the block in flight. -/
theorem drop_ledger {inFlight : List Entry} (flight : InFlight inFlight tail) (entries : List Entry)
    {i : Nat} (at_i : (ledgerRecords entries ++ tail)[i]? = some (.block height frame source)) :
    ∃ later, later <:+ entries ∧
      (ledgerRecords entries ++ tail).drop i = ledgerRecords later ++ tail := by
  induction entries generalizing i with
  | nil =>
    obtain rfl : i = 0 := by
      rcases flight.shape with rfl | ⟨h, f, src, body, rfl, unmarked, -⟩
      · simp [ledgerRecords] at at_i
      cases i with
      | zero => rfl
      | succ i =>
        have mem := mem_of_getElem? (by simpa [ledgerRecords] using at_i)
        exact absurd (unmarked _ mem).1 (by simp [marks])
    exact ⟨[], suffix_rfl, rfl⟩
  | cons entry entries ih =>
    rw [ledgerRecords_cons] at at_i ⊢
    rcases Nat.lt_or_ge i entry.records.length with within | past
    · rw [getElem?_append_left within] at at_i
      obtain rfl := Entry.records_block at_i
      exact ⟨entry :: entries, suffix_rfl, (ledgerRecords_cons entry entries tail).symm⟩
    · rw [getElem?_append_right past] at at_i
      obtain ⟨later, suffix, dropped⟩ := ih at_i
      refine ⟨later, suffix.trans (suffix_cons _ _), ?_⟩
      rw [drop_append, drop_eq_nil_of_le past, dropped]
      rfl

/-- Records between a block and its seal leave the open height alone. -/
theorem trailingStep_body (unmarked : ∀ record ∈ body, record.marks = false) (pending : Option Nat)
    : body.foldl (trailingStep checkpoint) pending = pending := by
  induction body generalizing pending with
  | nil => rfl
  | cons record body ih =>
    have plain := unmarked record mem_cons_self
    have same : trailingStep checkpoint pending record = pending := by
      cases record with
      | block | sealed => cases plain
      | _ => rfl
    rw [foldl_cons, same]
    exact ih (fun r mem => unmarked r (mem_cons_of_mem _ mem)) pending

/-- A ledger leaves no block open. -/
theorem trailingWalHeight_ledger (kept : ∀ entry ∈ entries, entry.isRefused = false)
    (tail : List Record) :
    trailingWalHeight checkpoint (ledgerRecords entries ++ tail)
      = trailingWalHeight checkpoint tail := by
  have closes : ∀ entry : Entry, entry.isRefused = false →
      entry.records.foldl (trailingStep checkpoint) none = none := by
    intro entry kept
    cases entry with
    | pin | cutover => rfl
    | refused outcome => cases kept
    | block settled =>
      rw [Entry.records, SettledBlock.records, SettledBlock.opening, openingRecords_eq,
        cons_append, foldl_cons, foldl_append,
        trailingStep_body checkpoint fun _ mem => (marks_of_mem_body mem).1]
      cases below : belowCheckpoint checkpoint settled.outcome.height <;> simp [trailingStep, below]
  induction entries with
  | nil => rfl
  | cons entry entries ih =>
    rw [ledgerRecords_cons, trailingWalHeight, foldl_append, closes entry (kept _ mem_cons_self)]
    exact ih fun e mem => kept e (mem_cons_of_mem _ mem)

/-- The open height after a block in flight. -/
theorem trailingWalHeight_block (unmarked : ∀ record ∈ body, record.marks = false) :
    trailingWalHeight checkpoint (.block height frame source :: body)
      = if belowCheckpoint checkpoint height then none else some height := by
  rw [trailingWalHeight, foldl_cons, trailingStep_body checkpoint unmarked]
  rfl

/-- A store reopened over a journal: the height index is read off the records. -/
def Store.reopen (journal : Journal) (manifestHeight : Option Nat) : Store :=
  ⟨journal, journal.heightIndex, manifestHeight⟩

/-- **Serving a ledger** up to a block in flight finds nothing corrupt. -/
theorem readFinalizedFrames_ledger {entries : List Entry} {journal : Journal}
    (ledger : Ledgered entries tail journal.records) (kept : ∀ entry ∈ entries, entry.isRefused = false)
    (manifestHeight : Option Nat) (range : after ≤ upTo)
    (below : (trailingWalHeight none journal.records).all (upTo < ·)) (text : String) :
    readFinalizedFrames (.reopen journal manifestHeight) after upTo limit ≠ .error (.corrupt text) := by
  -- the block in flight lies past the range: collecting stops at its record
  have stops : ∀ out, ∃ out', collectFrames after upTo limit tail none out = .ok (none, out') := by
    intro out
    rcases ledger.inFlight.shape with rfl | ⟨height, frame, source, body, rfl, unmarked, -⟩
    · exact ⟨out, rfl⟩
    refine ⟨out, ?_⟩
    by_cases full : limit ≤ out.length
    · exact collectFrames_full full _
    rw [ledger.records_eq, trailingWalHeight_ledger none entries kept,
      trailingWalHeight_block none fun _ mem => (unmarked _ mem).1] at below
    have late : upTo < height := by simpa [belowCheckpoint] using below
    have early : ¬ height ≤ after := by omega
    rw [collectFrames, if_neg full, if_neg early, if_pos late]
  have sought : ∀ height position, (height, position) ∈ journal.heightIndex →
      ∃ out, collectFrames after upTo limit (journal.replay position) none [] = .ok (none, out) := by
    intro height position mem
    obtain ⟨-, frame, source, at_i⟩ := journal.heightIndex_block mem
    rw [ledger.records_eq] at at_i
    obtain ⟨later, suffix, dropped⟩ := drop_ledger ledger.inFlight entries at_i
    rw [Journal.replay, ledger.records_eq, dropped]
    exact collectFrames_ledger later (fun e mem => kept e (suffix.subset mem)) stops
  rw [readFinalizedFrames, if_neg (by omega)]
  split
  · simp
  split
  · split <;> simp
  split
  · simp
  split
  · simp
  rename_i height position found
  split
  · simp
  obtain ⟨out, served⟩ := sought height position (mem_of_find?_eq_some found)
  rw [Store.reopen, served]
  simp [bind, Except.bind, finishFrames]

end Serve

end Ducktape
