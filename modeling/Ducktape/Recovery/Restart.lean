import Ducktape.Recovery.Writer

/-! # What a restart restores

Recovery of a ledger that succeeds leaves a ledger: the block in flight, if there was one, is rolled
forward and sealed (`rollForward_ledger`). The replay window it reports is the checkpoint's, with every
block of the journal above the checkpoint (`recover_restores`). -/

namespace Ducktape

open Lib List PendingBlock Journal

/-! ## The block in flight -/

variable {height : Nat}

section Assemble

variable {block : PendingBlock} {pending : Option PendingBlock} {record : Record}

/-- The batch of a block under assembly, and where it comes from. -/
def PendingBlock.batch (block : PendingBlock) : Nat × Bytes × BlockSource :=
  (block.height, block.frame, block.source)

theorem PendingBlock.expect_ok {held : PendingBlock} {what : String}
    (found : expect (some block) height what = .ok held) : held = block := by
  simp only [expect] at found
  split at found
  · cases found
  · cases found; rfl

/-- A step of the block's own that keeps its batch and its witness. -/
theorem extend_keeps {f : PendingBlock → Except RecoveryError PendingBlock} {what : String}
    (step : (do
      let held ← expect (some block) height what
      let extended ← f held
      .ok (some extended)) = .ok pending) :
    ∃ extended, pending = some extended ∧ f block = .ok extended := by
  obtain ⟨held, expected, step⟩ := bind_eq_ok.mp step
  obtain ⟨extended, run, step⟩ := bind_eq_ok.mp step
  rw [expect_ok expected] at run
  cases step
  exact ⟨extended, rfl, run⟩

/-- Records after a block record keep its batch; only the close of the witness gives it one. -/
theorem assemble_keeps (plain : record.marks = false) (step : assemble (some block) record = .ok pending) :
    ∃ block', pending = some block' ∧ block'.batch = block.batch ∧
      ((∀ height units, record ≠ .witnessed height units) → block'.witness = block.witness) := by
  cases record with
  | block | sealed => cases plain
  | pinned | cutover => cases step; exact ⟨block, rfl, rfl, fun _ => rfl⟩
  | preparedCall | preparedDelivery =>
    obtain ⟨held, expected, ended⟩ := bind_eq_ok.mp step
    obtain rfl := expect_ok expected
    cases ended
    exact ⟨_, rfl, rfl, fun _ => rfl⟩
  | schedule height calls deliveries advance =>
    obtain ⟨extended, rfl, run⟩ := extend_keeps step
    simp only [close] at run
    split at run
    · cases run
    split at run
    · cases run
    · cases run
      exact ⟨_, rfl, rfl, fun _ => rfl⟩
  | trace height unit trace =>
    obtain ⟨extended, rfl, run⟩ := extend_keeps step
    simp only [addTrace] at run
    split at run
    · cases run
    split at run
    · cases run
    split at run
    · cases run
    · cases run
      exact ⟨_, rfl, rfl, fun _ => rfl⟩
  | witnessed height units =>
    obtain ⟨extended, rfl, run⟩ := extend_keeps step
    refine ⟨extended, rfl, ?_, fun other => absurd rfl (other height units)⟩
    simp only [closeWitness] at run
    split at run
    · cases run
    split at run
    · cases run
    split at run
    · cases run
    · cases run
      rfl

/-- A run of such records. -/
theorem assemble_body {body : List Record} (plain : ∀ record ∈ body, record.marks = false)
    (run : body.foldlM assemble (some block) = .ok pending) :
    ∃ block', pending = some block' ∧ block'.batch = block.batch ∧
      ((∀ height units, .witnessed height units ∉ body) → block'.witness = block.witness) := by
  induction body generalizing block with
  | nil =>
    cases run
    exact ⟨block, rfl, rfl, fun _ => rfl⟩
  | cons record body ih =>
    obtain ⟨mid, step, rest⟩ := bind_eq_ok.mp run
    obtain ⟨block', rfl, batch, witness⟩ := assemble_keeps (plain _ mem_cons_self) step
    obtain ⟨block'', rfl, batch', witness'⟩ := ih (fun r mem => plain r (mem_cons_of_mem _ mem)) rest
    refine ⟨block'', rfl, batch'.trans batch, fun unclosed => ?_⟩
    rw [witness' fun height units mem => unclosed height units (mem_cons_of_mem _ mem),
      witness fun height units eq => unclosed height units (eq ▸ mem_cons_self)]

variable {height : Nat} {frame : Bytes} {source : BlockSource} {prepared : PreparedWork}
  {witness : Option Witness} {tail : List Record}

/-- The close of the witness is an opening's last record. -/
theorem openingRecords_closed (start : tail <+: openingRecords height frame prepared source witness)
    {h units : Nat} (mem : .witnessed h units ∈ tail) :
    tail = openingRecords height frame prepared source witness := by
  have unclosed : .witnessed h units ∉ blockRecords height frame prepared source := by
    simp [blockRecords]
  cases witness with
  | none => exact absurd (start.subset mem) (by simpa [openingRecords] using unclosed)
  | some witness =>
    have split : openingRecords height frame prepared source (some witness)
        = (blockRecords height frame prepared source ++
            witness.units.zipIdx.flatMap (unitRecords height)) ++
          [.witnessed height witness.units.length] := by
      simp [openingRecords, witnessRecords]
    rw [split] at start ⊢
    rcases prefix_concat_iff.mp start with whole | short
    · exact whole
    · have early := short.subset mem
      simp [unclosed, unitRecords] at early

/-- What there is of a block in flight assembles to its batch, with its witness if all of it is there. -/
theorem assemble_inFlight (start : tail <+: openingRecords height frame prepared source witness)
    (run : tail.foldlM assemble none = .ok pending) :
    tail = [] ∧ pending = none ∨ ∃ block, pending = some block ∧ block.batch = (height, frame, source) ∧
      (block.witness.isSome → tail = openingRecords height frame prepared source witness ∧
        block = .scheduled height frame prepared source [] witness) := by
  cases tail with
  | nil =>
    cases run
    exact .inl ⟨rfl, rfl⟩
  | cons record body =>
    have whole := start
    obtain ⟨rfl, within⟩ := cons_prefix_opening start
    have rest := run
    obtain ⟨block, rfl, batch, unwitnessed⟩ := assemble_body
      (fun r mem => (marks_of_mem_body (within.subset mem)).1) rest
    refine .inr ⟨block, rfl, batch, fun witnessed => ?_⟩
    -- a witness was given by its close, the last record of all
    by_cases closed : ∃ h units, .witnessed h units ∈ body
    · obtain ⟨h, units, mem⟩ := closed
      have full := openingRecords_closed whole (mem_cons_of_mem _ mem)
      rw [full, assemble_openingRecords] at run
      cases run
      exact ⟨full, rfl⟩
    · rw [unwitnessed fun h units mem => closed ⟨h, units, mem⟩] at witnessed
      cases witnessed

end Assemble

theorem ledger_snoc (entries : List Entry) (settled : SettledBlock) :
    ledgerRecords (entries ++ [.block settled]) = ledgerRecords entries ++ settled.records := by
  simp [ledgerRecords, Entry.records]

variable {source : BlockSource}

/-- The last block record, where nothing after it opens a block. -/
theorem Journal.lastBlockPosition_append {journal : Journal} {front body : List Record}
    {frame : Bytes} (records : journal.records = front ++ .block height frame source :: body)
    (plain : ∀ record ∈ body, record.marks = false) :
    journal.lastBlockPosition = some (journal.start + front.length) := by
  rw [lastBlockPosition, records, zipIdx_append, filter_append, zipIdx_cons,
    filter_cons_of_pos rfl,
    (filter_eq_nil_iff (l := body.zipIdx (journal.start + front.length + 1))).mpr,
    getLast?_concat]
  · rfl
  rintro ⟨record, position⟩ mem
  have unmarked := plain record (fst_mem_of_mem_zipIdx mem)
  cases record with
  | block height frame source => cases unmarked
  | _ => simp

namespace Recovery

variable {entries : List Entry} {tail : List Record}

section Roll

variable {C O J : Type} {crypto : FrameCrypto} {realize : Realize C O} {frame : Bytes} {height : Nat}
  {prepared : PreparedWork} {replayed : Replayed C O} {witness : Option Witness} {scan : Scan C O}
  {store store' : Store} {block : PendingBlock}

/-- A replayed batch records a witness, unless it was rejected before it had one. -/
theorem replayBatch_sink {hook : CommitWitness J} {commitOnly : Option (Finset ModuleId)}
    {code : Host C O} {host : HostState C} {sink sink' : J}
    (ran : replayBatch crypto realize hook height frame prepared witness commitOnly code host sink
      = (.ok replayed, sink')) : sink' = sink ∧ replayed.disposition = .rejected ∨
    ∃ observed, sink' = (hook.record height observed sink).2 := by
  simp only [replayBatch] at ran
  split at ran
  · cases ran
  split at ran
  · cases ran
    exact .inl ⟨rfl, rfl⟩
  -- both ways of replaying run the block through the host
  split at ran
  · rename_i sink₁ submitted
    have same : sink₁ = sink := by cases commitOnly <;> exact applyBlock_rejected_sink submitted
    cases ran
    exact .inl ⟨same, rfl⟩
  · cases ran
  · rename_i sink₁ submitted
    have recorded : ∃ observed, sink₁ = (hook.record height observed sink).2 := by
      cases commitOnly <;> exact applyBlock_ok_sink submitted
    cases ran
    exact .inr recorded

/-- The store a rerun trailing block leaves. -/
theorem rerunTrailing_store {moved claims : List ModuleId}
    (ran : rerunTrailing crypto realize height frame prepared witness moved claims scan store
      = (.ok replayed, store')) : (witness.isSome → store' = store) ∧
    (witness = none → moved = [] → ∃ observed : Option Witness,
      store' = store.append ((observed.map (witnessRecords height)).getD []) ∧
      (replayed.disposition ≠ .rejected → observed.isSome)) := by
  have kept : ∀ {commitOnly : Option (Finset ModuleId)} {replayed : Replayed C O} {store' : Store},
      replayBatch crypto realize keepWitness height frame prepared witness commitOnly scan.code scan.host
        store = (.ok replayed, store') → store' = store := by
    intro commitOnly replayed store' ran
    rcases replayBatch_sink ran with ⟨same, -⟩ | ⟨observed, same⟩ <;> exact same
  -- an unsealed block has no disposition to reproduce
  have unchecked : ∀ (label : String) (run : Except RecoveryError (Replayed C O)),
      run.bind (checkDisposition label height none) = run := by
    intro label run
    cases run <;> rfl
  simp only [rerunTrailing, applyBlock, applyBlockCommitting, unchecked, Prod.mk.eta] at ran
  refine ⟨fun held => ?_, fun absent still => ?_⟩
  · split at ran
    · exact kept ran
    split at ran
    · cases ran
    split at ran
    · cases ran
    rename_i reran
    split at ran
    · cases ran
    · cases ran
      exact kept reran
  · subst absent still
    simp only [if_true] at ran
    rcases replayBatch_sink ran with ⟨rfl, rejected⟩ | ⟨observed, rfl⟩
    · refine ⟨none, ?_, fun applied => absurd rejected applied⟩
      simp [Store.append, append]
    · exact ⟨some observed, rfl, fun _ => rfl⟩

/-- A trailing block is replayed from its own batch, with its witness if it has one. -/
theorem trailingWork_ok (worked : trailingWork block scan = .ok (frame, prepared, witness)) :
    frame = block.frame ∧ (witness.isSome → prepared = block.prepared ∧ witness = block.witness) := by
  simp only [trailingWork, trailing] at worked
  cases schedule : block.schedule with
  | closed =>
    rw [schedule] at worked
    cases worked
    exact ⟨rfl, fun _ => ⟨rfl, rfl⟩⟩
  | opened =>
    rw [schedule] at worked
    dsimp only at worked
    split at worked
    · cases worked
    · cases worked
      exact ⟨rfl, fun held => by cases held⟩

/-- A trailing block without a witness is journaled anew where it stood. -/
theorem rewriteTrailing_ok {moved : List ModuleId} {lastBlock : Option Nat}
    (rewritten : rewriteTrailing block frame prepared witness moved lastBlock store = .ok store') :
    (witness.isSome ∧ store' = store) ∨ witness = none ∧ moved = [] ∧ ∃ position,
      lastBlock = some position ∧ store'.journal = ⟨store.journal.start,
        store.journal.records.take (position - store.journal.start) ++
          blockRecords block.height frame prepared block.source⟩ := by
  simp only [rewriteTrailing] at rewritten
  split at rewritten
  · rename_i held
    cases rewritten
    exact .inl ⟨held, rfl⟩
  rename_i absent
  split at rewritten
  · cases rewritten
  rename_i still
  split at rewritten
  · cases rewritten
  · cases rewritten
    exact .inr ⟨by simpa using absent, by simpa using still, _, rfl, rfl⟩

/-- A block in flight that is rolled forward becomes the ledger's last entry. -/
theorem rollForward_ledger {claims : List ModuleId} {scan' : Scan C O}
    (records : store.journal.records = ledgerRecords entries ++ tail)
    (start : tail <+: openingRecords height frame prepared source witness)
    (assembled : tail.foldlM assemble none = .ok (some block))
    (rolled : rollForward crypto realize claims store.journal.lastBlockPosition block scan store
      = (.ok scan', store')) :
    ∃ settled : SettledBlock, settled.outcome.height = height ∧ settled.frame = frame ∧
      store'.journal = ⟨store.journal.start, ledgerRecords (entries ++ [.block settled])⟩ ∧
      ∃ code host, scan' = { scan with code := code, host := host }.advance crypto settled.outcome frame := by
  rcases assemble_inFlight start assembled with ⟨-, none⟩ | ⟨block', eq, batch, witnessed⟩
  · cases none
  cases eq
  obtain ⟨rfl, rfl, rfl⟩ : block.height = height ∧ block.frame = frame ∧ block.source = source := by
    simpa [PendingBlock.batch] using batch
  simp only [rollForward] at rolled
  split at rolled
  · cases rolled
  rename_i prepared' witness' worked
  split at rolled
  · cases rolled
  rename_i rewritten
  split at rolled
  · cases rolled
  rename_i reran
  split at rolled
  · cases rolled
  rename_i verified
  cases rolled
  obtain ⟨rfl, own⟩ := trailingWork_ok worked
  obtain ⟨keeps, anew⟩ := rerunTrailing_store reran
  rcases rewriteTrailing_ok rewritten with ⟨held, rfl⟩ | ⟨rfl, still, position, last, rewound⟩
  · -- the whole opening is in the journal already
    obtain ⟨rfl, rfl⟩ := own held
    obtain ⟨full, scheduled⟩ := witnessed held
    have parts : block.prepared = prepared ∧ block.witness = witness := by
      rw [scheduled]; exact ⟨rfl, rfl⟩
    refine ⟨⟨block.frame, prepared, block.source, witness, _, fun _ => parts.2 ▸ held, verified⟩, rfl, rfl,
      ?_, _, _, rfl⟩
    rw [keeps held]
    simp only [Store.append, append, records, full, ledger_snoc, SettledBlock.records,
      SettledBlock.opening, append_assoc]
  · obtain ⟨observed, stored, applied⟩ := anew rfl still
    refine ⟨⟨block.frame, prepared', block.source, observed, _, applied, verified⟩, rfl, rfl, ?_, _, _, rfl⟩
    obtain ⟨body, shape, plain⟩ : ∃ body, tail = .block block.height block.frame block.source :: body ∧
        ∀ record ∈ body, record.marks = false := by
      cases tail with
      | nil => cases assembled
      | cons record body =>
        obtain ⟨rfl, within⟩ := cons_prefix_opening start
        exact ⟨body, rfl, fun r mem => (marks_of_mem_body (within.subset mem)).1⟩
    rw [shape] at records
    rw [lastBlockPosition_append records plain] at last
    cases last
    rw [records, Nat.add_sub_cancel_left, take_left] at rewound
    rw [stored]
    simp only [Store.append, append, rewound, ledger_snoc, SettledBlock.records, SettledBlock.opening,
      openingRecords, append_assoc]

end Roll

/-! ## What recovery restores -/

section Restores

variable {C O : Type} {crypto : FrameCrypto} {realize : Realize C O}

theorem Scan.recovered_appliedFrames (scan : Scan C O) (rolled : Bool) :
    (scan.recovered rolled).appliedFrames = restoreWindow scan.appliedFrames := by
  rw [Scan.recovered]

theorem Scan.recovered_height (scan : Scan C O) (rolled : Bool) :
    (scan.recovered rolled).height = scan.tipHeight := rfl

/-- What becomes of the block in flight: nothing if there was none, else the ledger's last entry. -/
inductive Rolls : List Record → List Entry → Bool → Prop
  | idle : Rolls [] [] false
  | forward (settled : SettledBlock) (source : BlockSource) (body : List Record) :
      Rolls (.block settled.outcome.height settled.frame source :: body) [.block settled] true

/-- What a successful recovery leaves of a ledger. -/
structure Restored (crypto : FrameCrypto) (manifest : Manifest) (entries : List Entry) (journal : Journal)
    (more : List Entry) (rec : Recovered) (store' : Store) : Prop where
  refused : RefusedBelow manifest.height entries
  start : store'.journal.start = journal.start
  ledger : Ledgered (entries ++ more) [] store'.journal.records
  frames : rec.appliedFrames = restoreWindow
    (manifest.appliedFrames ++ (entries ++ more).filterMap (restored crypto manifest.height))
  tip : rec.height = (((entries ++ more).filterMap (restored crypto manifest.height)).getLast?.map
    (·.1)).or manifest.height

/-- **What recovery restores**: a ledger again, and the window of the checkpoint and of every block
above it. -/
theorem recover_restores {store store' : Store} {manifest : Manifest} {code code' : Host C O}
    {host host' : HostState C} {rec : Recovered}
    (ledger : Ledgered entries tail store.journal.records)
    (fresh : ∀ height frame source, .block height frame source ∈ tail →
      belowCheckpoint manifest.height height = false)
    (recovers : recover crypto realize manifest code host store = (.ok (rec, code', host'), store'))
    :
    ∃ more, Rolls tail more rec.rolledForward ∧
      Restored crypto manifest entries store.journal more rec store' := by
  simp only [recover] at recovers
  split at recovers
  · cases recovers
  rename_i read
  rw [ledger.records_eq, scanRecords, foldlM_append] at read
  obtain ⟨mid, settled, rest⟩ := bind_eq_ok.mp read
  have scanned := (scanRecords_ledger crypto realize _ _ entries _ rfl).2 mid settled
  have finished : ∀ {rolled : Bool} {scan : Scan C O}, (verifyTip realize scan >>= fun reached =>
      Except.ok (scan.recovered rolled, reached)) = .ok (rec, code', host') →
      rec = scan.recovered rolled := by
    intro rolled scan ended
    obtain ⟨reached, -, ended⟩ := bind_eq_ok.mp ended
    cases ended
    rfl
  by_cases empty : tail = []
  · subst empty
    cases rest
    rw [scanned.idle] at recovers
    obtain ⟨ended, rfl⟩ := Prod.mk.inj recovers
    obtain rfl := finished ended
    refine ⟨[], .idle, scanned.refused, rfl, ?_, ?_, ?_⟩ <;> rw [append_nil]
    · exact ledger
    · rw [Scan.recovered_appliedFrames, scanned.frames]
      rfl
    · rw [Scan.recovered_height, scanned.tip]
      rfl
  rcases ledger.inFlight with none | ⟨height, frame, prepared, source, witness, start, above⟩
  · exact absurd none empty
  have high : belowCheckpoint manifest.height height = false := by
    cases tail with
    | nil => exact absurd rfl empty
    | cons record body =>
      obtain ⟨rfl, -⟩ := cons_prefix_opening start
      exact fresh _ _ _ mem_cons_self
  rcases scanRecords_inFlight crypto realize _ start high mid scanned.idle with
    none | ⟨pending, body, shape, assembled, last⟩
  · exact absurd none empty
  rcases assemble_inFlight start assembled with ⟨none, -⟩ | ⟨block, rfl, -⟩
  · exact absurd none empty
  obtain rfl := Except.ok.inj (last.symm.trans rest)
  dsimp only at recovers
  split at recovers
  · cases recovers
  rename_i rolled
  obtain ⟨ended, rfl⟩ := Prod.mk.inj recovers
  obtain rfl := finished ended
  obtain ⟨settled, rfl, rfl, written, code, host, rfl⟩ :=
    rollForward_ledger ledger.records_eq start assembled rolled
  refine ⟨[.block settled], shape ▸ .forward settled source body, scanned.refused, by rw [written], ?_, ?_, ?_⟩
  · refine ⟨by rw [written, append_nil], ?_, .inl rfl⟩
    rw [settledHeights, filterMap_append, pairwise_append]
    refine ⟨ledger.increasing, pairwise_singleton _ _, fun below mem height eq => ?_⟩
    obtain ⟨entry, mem, settles⟩ := mem_filterMap.mp mem
    rw [mem_singleton.mp eq]
    exact above entry mem below settles
  · rw [Scan.recovered_appliedFrames]
    simp [Scan.advance, scanned.frames, restored, high, Scan.start]
  · rw [Scan.recovered_height]
    simp [Scan.advance, restored, high]

end Restores

/-! ## The restored window -/

section Window

open OrderedNode

variable {window : List (Nat × FrameId)} {ending : List (Nat × FrameId)}

variable {entry : Nat × FrameId}

theorem mem_of_mem_dedupHeights (mem : entry ∈ dedupHeights window) :
    entry ∈ window := by
  fun_induction dedupHeights window <;> grind

/-- Of a window sorted by height, one entry a height is left. -/
theorem dedupHeights_increasing (sorted : window.Pairwise (·.1 ≤ ·.1)) :
    (dedupHeights window).Pairwise (·.1 < ·.1) := by
  fun_induction dedupHeights window with
  | case1 => exact .nil
  | case2 head window next rest kept same ih =>
    rw [kept, pairwise_cons] at ih
    rw [pairwise_cons]
    grind
  | case3 head window next rest kept apart ih =>
    have := mem_of_mem_dedupHeights (kept ▸ mem_cons_self)
    simp only [kept, pairwise_cons] at ih sorted ⊢
    grind
  | case4 => exact pairwise_singleton ..

/-- Where a height has one entry only, nothing is lost. -/
theorem mem_dedupHeights (single : ∀ a ∈ window, ∀ b ∈ window, a.1 = b.1 → a = b)
    (mem : entry ∈ window) : entry ∈ dedupHeights window := by
  fun_induction dedupHeights window with
  | case1 => exact mem
  | case2 head window next rest kept same ih =>
    grind
  | case3 head window next rest kept apart ih => grind
  | case4 => grind

/-- A window restored from the members of a long enough end of the past is the past's. -/
theorem restoreWindow_eq {past : List (Nat × FrameId)} (increasing : past.Pairwise (·.1 < ·.1))
    (ends : ending <:+ past) (long : replayWindowHeights ≤ ending.length ∨ ending = past)
    (same : ∀ entry, entry ∈ window ↔ entry ∈ ending) : restoreWindow window = boundWindow past := by
  have sorted := pairwise_insertionSort (fun a b : Nat × FrameId => a.1 ≤ b.1) window
  have members : ∀ entry, entry ∈ window.insertionSort (fun a b => a.1 ≤ b.1) ↔ entry ∈ ending :=
    fun entry => (perm_insertionSort _ window).mem_iff.trans (same entry)
  have within := increasing.sublist ends.sublist
  have merged : dedupHeights (window.insertionSort fun a b => a.1 ≤ b.1) = ending := by
    refine eq_of_increasing (dedupHeights_increasing sorted) within fun entry => ⟨fun mem => ?_, fun mem => ?_⟩
    · exact (members entry).mp (mem_of_mem_dedupHeights mem)
    · refine mem_dedupHeights (fun a left b right eq => ?_) ((members entry).mpr mem)
      exact eq_of_key_eq within ((members a).mp left) ((members b).mp right) eq
  rw [restoreWindow, merged]
  exact rtake_of_suffix ends long

/-- **The merge of the restored window**: the checkpoint's window and an end of the past that holds
everything after the checkpoint make the window of the past, however they overlap. -/
theorem restoreWindow_merge {early late : List (Nat × FrameId)}
    (increasing : (early ++ late).Pairwise (·.1 < ·.1)) (ends : ending <:+ early ++ late)
    (holds : late <:+ ending) :
    restoreWindow (boundWindow early ++ ending) = boundWindow (early ++ late) := by
  have recent : boundWindow early ++ late <:+ early ++ late := by
    obtain ⟨old, eq⟩ := rtake_suffix replayWindowHeights early
    exact ⟨old, by rw [← append_assoc, boundWindow_eq, eq]⟩
  have full : replayWindowHeights ≤ (boundWindow early ++ late).length ∨
      boundWindow early ++ late = early ++ late := by
    rw [boundWindow_eq, length_append, length_rtake]
    by_cases short : early.length ≤ replayWindowHeights
    · right
      rw [rtake, Nat.sub_eq_zero_of_le short, drop_zero]
    · left
      omega
  -- the two ends of the past are nested, and the longer one decides
  rcases suffix_or_suffix_of_suffix recent ends with within | within
  · refine restoreWindow_eq increasing ends ?_ fun entry => ?_
    · rcases full with long | all
      · exact .inl (long.trans within.length_le)
      · rw [all] at within
        exact .inr (ends.eq_of_length (Nat.le_antisymm ends.length_le within.length_le))
    · rw [mem_append]
      exact ⟨fun mem => mem.elim (fun mem => within.subset (mem_append_left _ mem)) id, .inr⟩
  · refine restoreWindow_eq increasing recent full fun entry => ?_
    simp only [mem_append]
    refine ⟨fun mem => mem.elim .inl fun mem => mem_append.mp (within.subset mem), fun mem => ?_⟩
    exact mem.imp id fun mem => holds.subset mem

end Window

end Recovery

end Ducktape
