import Ducktape.Recovery.Ledger

/-! # Replaying a ledger

Replay over the records of a ledger is replay over its entries: a block in full comes down to one
`replaySeal` of what was journaled (`scanRecords_block`), a block in flight to the block assembled from
what there is of it (`scanRecords_inFlight`). Nothing else the records can say is left to fail, so
recovery of a ledger may stop on the state it finds, never on the journal (`recover_ledger`). -/

namespace Ducktape.Recovery

open Lib List

variable {C O : Type} (crypto : FrameCrypto) (realize : Realize C O) (floor : ModuleId → Option Nat)
  {checkpoint : Option Nat} {height : Nat} {pending : Option PendingBlock} {tail : List Record}

/-! ## The records of an entry -/

variable {records : List Record}

/-- Records at or below the checkpoint are passed over. -/
theorem scanRecords_below
    (old : ∀ record ∈ records, record.height?.any (belowCheckpoint checkpoint)) (scan : Scan C O) :
    scanRecords crypto realize checkpoint floor records scan = .ok scan := by
  induction records with
  | nil => rfl
  | cons record records ih =>
    have passed : scanRecord crypto realize checkpoint floor scan record = .ok scan :=
      if_pos (old record mem_cons_self)
    rw [scanRecords, foldlM_cons_of_ok passed]
    exact ih fun r mem => old r (mem_cons_of_mem _ mem)

/-- A block at or below the checkpoint has all its records there. -/
theorem settled_below {settled : SettledBlock} (below : belowCheckpoint checkpoint settled.outcome.height) :
    ∀ record ∈ settled.records, record.height?.any (belowCheckpoint checkpoint) := by
  intro record mem
  rw [settled.records_height record mem]
  exact below

variable {body : List Record}

/-- Records after a block record extend the block under assembly and say nothing else. -/
theorem scanRecords_body {pending' : Option PendingBlock}
    (fresh : belowCheckpoint checkpoint height = false)
    (unmarked : ∀ record ∈ body, record.marks = false ∧ record.height? = some height)
    (assembled : body.foldlM assemble pending = .ok pending') (scan : Scan C O)
    (held : scan.pending = pending) :
    scanRecords crypto realize checkpoint floor body scan = .ok { scan with pending := pending' } := by
  induction body generalizing pending scan with
  | nil =>
    obtain rfl : pending = pending' := by simpa [pure, Except.pure] using assembled
    rw [← held]
    rfl
  | cons record body ih =>
    obtain ⟨plain, own⟩ := unmarked record mem_cons_self
    obtain ⟨mid, step, rest⟩ := bind_eq_ok.mp assembled
    have above : record.height?.any (belowCheckpoint checkpoint) = false := by
      rw [own, Option.any_some, fresh]
    have read : scanRecord crypto realize checkpoint floor scan record
        = .ok { scan with pending := mid } := by
      rw [← held] at step
      cases record with
      | block | sealed => cases plain
      | pinned | cutover => cases own
      | _ => simp [scanRecord, above, step, Scan.note, bind, Except.bind]
    rw [scanRecords, foldlM_cons_of_ok read]
    exact ih (fun r mem => unmarked r (mem_cons_of_mem _ mem)) rest _ rfl

variable {frame : Bytes} {source : BlockSource}

/-- The start of a block: its batch is retained, and the block is under assembly. -/
theorem scanRecords_start (fresh : belowCheckpoint checkpoint height = false)
    (unmarked : ∀ record ∈ body, record.marks = false ∧ record.height? = some height)
    (assembled : (Record.block height frame source :: body).foldlM assemble none = .ok pending)
    (scan : Scan C O) (idle : scan.pending = none) :
    scanRecords crypto realize checkpoint floor (.block height frame source :: body) scan
      = .ok { scan with frames := scan.frames ++ [frame], pending := pending } := by
  have opened : assemble none (.block height frame source)
      = .ok (some (.opening height frame source)) := rfl
  have read : scanRecord crypto realize checkpoint floor scan (.block height frame source)
      = .ok { scan with frames := scan.frames ++ [frame],
                        pending := some (.opening height frame source) } := by
    simp [scanRecord, Record.height?, fresh, idle, opened, Scan.note, bind, Except.bind]
  rw [scanRecords, foldlM_cons_of_ok read]
  exact scanRecords_body crypto realize floor fresh unmarked assembled _ rfl

/-- A block in full, above the checkpoint: one replay of what was journaled. -/
theorem scanRecords_block (settled : SettledBlock)
    (fresh : belowCheckpoint checkpoint settled.outcome.height = false) (scan : Scan C O)
    (idle : scan.pending = none) :
    scanRecords crypto realize checkpoint floor settled.records scan
      = (replaySeal crypto realize floor settled.outcome settled.frame settled.prepared
          settled.witness { scan with frames := scan.frames ++ [settled.frame] }).map
        (·.advance crypto settled.outcome settled.frame) := by
  have assembled := assemble_openingRecords settled.outcome.height settled.frame settled.source
    settled.prepared settled.witness
  have start := scanRecords_start crypto realize floor fresh
    (fun _ mem => marks_of_mem_body mem) assembled scan idle
  have taken : takeSealed (some (.scheduled settled.outcome.height settled.frame settled.prepared
      settled.source [] settled.witness)) settled.outcome
      = .ok (settled.frame, settled.prepared, settled.witness) := by
    have verified := settled.verified
    by_cases rejected : settled.outcome.disposition = .rejected
    · simp [takeSealed, PendingBlock.scheduled, verified, PendingBlock.settled, rejected, bind,
        Except.bind]
    · obtain ⟨witness, held⟩ := Option.isSome_iff_exists.mp (settled.witnessed rejected)
      simp [takeSealed, PendingBlock.scheduled, verified, PendingBlock.settled, held, bind,
        Except.bind]
  have same : { scan with frames := scan.frames ++ [settled.frame], pending := none }
      = { scan with frames := scan.frames ++ [settled.frame] } := by rw [← idle]
  rw [SettledBlock.records, SettledBlock.opening, openingRecords_eq, scanRecords,
    foldlM_append_of_ok start, foldlM_cons, ← same]
  simp only [scanRecord, Record.height?, Option.any_some, fresh, taken,
    bind, Except.bind]
  generalize replaySeal crypto realize floor settled.outcome settled.frame settled.prepared
    settled.witness { scan with frames := scan.frames ++ [settled.frame], pending := none } = replayed
  cases replayed <;> rfl

/-- A block in flight, above the checkpoint: the block assembled from what there is of it. -/
theorem scanRecords_inFlight {prepared : PreparedWork} {witness : Option Witness}
    (start : tail <+: openingRecords height frame prepared source witness)
    (fresh : belowCheckpoint checkpoint height = false) (scan : Scan C O)
    (idle : scan.pending = none) :
    tail = [] ∨ ∃ pending body, tail = .block height frame source :: body ∧
      tail.foldlM assemble none = .ok pending ∧
      scanRecords crypto realize checkpoint floor tail scan =
        .ok { scan with frames := scan.frames ++ [frame], pending := pending } := by
  cases tail with
  | nil => exact .inl rfl
  | cons record body =>
    obtain ⟨pending, assembled⟩ := foldlM_of_prefix start
      (assemble_openingRecords height frame source prepared witness)
    obtain ⟨rfl, within⟩ := cons_prefix_opening start
    exact .inr ⟨pending, body, rfl, assembled, scanRecords_start crypto realize floor fresh
      (fun _ mem => marks_of_mem_body (within.subset mem)) assembled scan idle⟩

/-! ## Failing on the state, never on the journal -/

/-- The run does not fail on the journal. -/
def NotCorrupt {α : Type} (run : Except RecoveryError α) : Prop :=
  ∀ text, run ≠ .error (.corrupt text)

section NotCorrupt

variable {α β : Type} {run : Except RecoveryError α}

theorem NotCorrupt.ok (a : α) : NotCorrupt (.ok a) := fun _ fails => by cases fails

theorem NotCorrupt.bind {f : α → Except RecoveryError β} (first : NotCorrupt run)
    (rest : ∀ a, run = .ok a → NotCorrupt (f a)) : NotCorrupt (run >>= f) := by
  intro text fails
  cases run with
  | error e => exact first text (by cases fails; rfl)
  | ok a => exact rest a rfl text fails

end NotCorrupt

variable {J : Type}

theorem replayBatch_notCorrupt (hook : CommitWitness J) (height : Nat) (frame : Bytes)
    (prepared : PreparedWork) (witness : Option Witness) (commitOnly : Option (Finset ModuleId))
    (code : Host C O) (host : HostState C) (sink : J) :
    NotCorrupt (replayBatch crypto realize hook height frame prepared witness commitOnly code host
      sink).1 := by
  intro text
  unfold replayBatch
  split
  · simp
  split
  · simp
  dsimp only
  split <;> simp

theorem checkDisposition_notCorrupt (label : String) (height : Nat) (expected : Option Disposition)
    (replayed : Replayed C O) : NotCorrupt (checkDisposition label height expected replayed) := by
  intro text
  unfold checkDisposition
  split
  · simp
  split <;> simp

theorem verifyRoots_notCorrupt (label : String) (height : Nat) (root : Roots)
    (entries : List (ModuleId × StateRoot)) : NotCorrupt (verifyRoots label height root entries) := by
  induction entries with
  | nil => exact .ok ()
  | cons entry entries ih =>
    intro text
    unfold verifyRoots
    split
    · exact ih text
    · simp

/-- Replaying a sealed block fails only on the state. -/
theorem replaySeal_notCorrupt (outcome : BlockSeal) (frame : Bytes) (prepared : PreparedWork)
    (witness : Option Witness) (scan : Scan C O) :
    NotCorrupt (replaySeal crypto realize floor outcome frame prepared witness scan) := by
  have replays : ∀ label commitOnly, NotCorrupt ((replayBatch crypto realize noWitness outcome.height
      frame prepared witness commitOnly scan.code scan.host ()).1 >>=
        checkDisposition label outcome.height (some outcome.disposition)) := fun label commitOnly =>
    NotCorrupt.bind (replayBatch_notCorrupt _ _ _ _ _ _ _ _ _ _ _)
      fun _ _ => checkDisposition_notCorrupt _ _ _ _
  simp only [replaySeal]
  cases planSeal (moduleRoot scan.code scan.host) scan.expected floor outcome.height
    (changedBy scan.expected outcome.roots) with
  | skip => exact .ok _
  | torn => exact fun _ => by simp
  | forward => exact (replays _ none).bind fun _ _ => (verifyRoots_notCorrupt _ _ _ _).bind fun _ _ => .ok _
  | selective commitOnly =>
    exact (replays _ (some commitOnly)).bind fun _ _ => (verifyRoots_notCorrupt _ _ _ _).bind fun _ _ => .ok _

/-! ## Replaying the entries -/

section Entries

variable (checkpoint)

/-- What replay makes of an entry for the replay window: a block above the checkpoint. -/
def restored : Entry → Option (Nat × FrameId)
  | .block settled =>
    if belowCheckpoint checkpoint settled.outcome.height then none
    else some (settled.outcome.height, frameId crypto settled.frame)
  | _ => none

/-- The refused batches of a ledger lie at or below the checkpoint. -/
def RefusedBelow (entries : List Entry) : Prop :=
  ∀ outcome, .refused outcome ∈ entries → belowCheckpoint checkpoint outcome.height

/-- What a scan has of the replay window and the tip. -/
structure Scanned (entries : List Entry) (scan scan' : Scan C O) : Prop where
  idle : scan'.pending = none
  refused : RefusedBelow checkpoint entries
  frames : scan'.appliedFrames = scan.appliedFrames ++ entries.filterMap (restored crypto checkpoint)
  tip : scan'.tipHeight = ((entries.filterMap (restored crypto checkpoint)).getLast?.map
    (·.1)).or scan.tipHeight

variable {crypto realize floor checkpoint} in
/-- Replaying a sealed block touches the host and the counts. -/
theorem replaySeal_keeps {β : Type} {f : Scan C O → β}
    (blind : ∀ (scan : Scan C O) code host applied skipped,
      f { scan with code := code, host := host, applied := applied, skipped := skipped } = f scan)
    {outcome : BlockSeal}
    (replays : replaySeal crypto realize floor outcome frame prepared witness scan = .ok scan') :
    f scan' = f scan := by
  simp only [replaySeal] at replays
  split at replays
  case h_1 =>
    cases replays
    exact blind scan scan.code scan.host scan.applied _
  case h_4 => cases replays
  -- forward, or committing only what lags
  all_goals
    obtain ⟨replayed, -, ended⟩ := bind_eq_ok.mp replays
    obtain ⟨_, -, ended⟩ := bind_eq_ok.mp ended
    cases ended
    exact blind scan _ _ _ scan.skipped

/-- One entry: a block of the ledger fails only on the state. -/
theorem scanRecords_entry (entry : Entry) (scan : Scan C O) (idle : scan.pending = none) :
    (entry.isRefused = false → NotCorrupt (scanRecords crypto realize checkpoint floor entry.records scan)) ∧
    ∀ scan', scanRecords crypto realize checkpoint floor entry.records scan = .ok scan' →
      Scanned crypto checkpoint [entry] scan scan' := by
  have quiet : ∀ scan', restored crypto checkpoint entry = none → RefusedBelow checkpoint [entry] →
      scan'.pending = scan.pending ∧ scan'.appliedFrames = scan.appliedFrames ∧
        scan'.tipHeight = scan.tipHeight → Scanned crypto checkpoint [entry] scan scan' := by
    rintro scan' none refused ⟨same, frames, tip⟩
    refine ⟨same.trans idle, refused, ?_, ?_⟩ <;> simp [none, frames, tip]
  have unrefused : entry.isRefused = false → RefusedBelow checkpoint [entry] := by
    intro kept outcome mem
    rw [← mem_singleton.mp mem] at kept
    cases kept
  cases entry with
  | pin frame =>
    exact ⟨fun _ => .ok (scan.note (.pinned frame)),
      by rintro _ ⟨⟩; exact quiet _ rfl (unrefused rfl) ⟨rfl, rfl, rfl⟩⟩
  | cutover epoch viewBase participants residents =>
    refine ⟨fun _ => .ok (scan.note (.cutover epoch viewBase participants residents)), ?_⟩
    rintro _ ⟨⟩
    refine quiet _ rfl (unrefused rfl) ?_
    simp only [Scan.note]
    split <;> exact ⟨rfl, rfl, rfl⟩
  | refused outcome =>
    refine ⟨fun kept => Bool.noConfusion kept, fun scan' read => ?_⟩
    cases below : belowCheckpoint checkpoint outcome.height with
    | true =>
      have old : ∀ record ∈ [Record.sealed outcome],
          record.height?.any (belowCheckpoint checkpoint) := by
        simpa [Record.height?] using below
      rw [Entry.records, scanRecords_below crypto realize floor old] at read
      cases read
      refine quiet _ rfl (fun other mem => ?_) ⟨rfl, rfl, rfl⟩
      cases mem_singleton.mp mem
      exact below
    | false =>
      -- a seal above the checkpoint needs its block
      simp [Entry.records, scanRecords, scanRecord, Record.height?, below, idle, takeSealed, bind,
        Except.bind] at read
  | block settled =>
    cases below : belowCheckpoint checkpoint settled.outcome.height with
    | true =>
      rw [Entry.records, scanRecords_below crypto realize floor (settled_below below)]
      exact ⟨fun _ => .ok _,
        by rintro _ ⟨⟩; exact quiet _ (by simp [restored, below]) (unrefused rfl) ⟨rfl, rfl, rfl⟩⟩
    | false =>
      have sound := replaySeal_notCorrupt crypto realize floor settled.outcome settled.frame
        settled.prepared settled.witness { scan with frames := scan.frames ++ [settled.frame] }
      rw [Entry.records, scanRecords_block crypto realize floor settled below scan idle]
      cases replays : replaySeal crypto realize floor settled.outcome settled.frame
        settled.prepared settled.witness { scan with frames := scan.frames ++ [settled.frame] } with
      | error e =>
        refine ⟨fun _ text fails => sound text ?_, by rintro _ ⟨⟩⟩
        cases fails
        exact replays
      | ok mid =>
        refine ⟨fun _ => .ok _, ?_⟩
        rintro _ ⟨⟩
        have pending : mid.pending = none :=
          (replaySeal_keeps (f := (·.pending)) (fun _ _ _ _ _ => rfl) replays).trans idle
        have frames := replaySeal_keeps (f := (·.appliedFrames)) (fun _ _ _ _ _ => rfl) replays
        refine ⟨pending, unrefused rfl, ?_, ?_⟩ <;> simp [Scan.advance, restored, below, frames]

/-- The entries of a ledger. -/
theorem scanRecords_ledger (entries : List Entry) (scan : Scan C O) (idle : scan.pending = none) :
    ((∀ entry ∈ entries, entry.isRefused = false) →
      NotCorrupt (scanRecords crypto realize checkpoint floor (ledgerRecords entries) scan)) ∧
    ∀ scan', scanRecords crypto realize checkpoint floor (ledgerRecords entries) scan = .ok scan' →
      Scanned crypto checkpoint entries scan scan' := by
  induction entries generalizing scan with
  | nil =>
    refine ⟨fun _ => .ok scan, ?_⟩
    rintro _ ⟨⟩
    exact ⟨idle, fun _ mem => (not_mem_nil mem).elim, (append_nil _).symm, rfl⟩
  | cons entry entries ih =>
    obtain ⟨sound, first⟩ := scanRecords_entry crypto realize floor checkpoint entry scan idle
    rw [ledgerRecords, flatMap_cons, scanRecords, foldlM_append]
    refine ⟨fun kept => (sound (kept entry mem_cons_self)).bind fun mid read =>
      (ih mid (first mid read).idle).1 fun e mem => kept e (mem_cons_of_mem _ mem), fun scan' ended => ?_⟩
    obtain ⟨mid, read, rest⟩ := bind_eq_ok.mp ended
    have one := first mid read
    have more := (ih mid one.idle).2 scan' rest
    have split : (entry :: entries).filterMap (restored crypto checkpoint)
        = [entry].filterMap (restored crypto checkpoint) ++
          entries.filterMap (restored crypto checkpoint) := by
      rw [← filterMap_append]
      rfl
    refine ⟨more.idle, fun outcome mem => ?_, ?_, ?_⟩
    · rcases mem_cons.mp mem with rfl | mem
      · exact one.refused outcome mem_cons_self
      · exact more.refused outcome mem
    · rw [more.frames, one.frames, split, append_assoc]
    · rw [more.tip, one.tip, split, getLast?_append, Option.map_or, Option.or_assoc]

end Entries

variable {entries : List Entry}

/-- A ledger and a block in flight fail only on the state; a block is open only if one is in
flight. -/
theorem scanRecords_notCorrupt (ledger : Ledgered entries tail records)
    (kept : ∀ entry ∈ entries, entry.isRefused = false) (scan : Scan C O)
    (idle : scan.pending = none) :
    NotCorrupt (scanRecords crypto realize checkpoint floor records scan) ∧
    ∀ scan', scanRecords crypto realize checkpoint floor records scan = .ok scan' →
      tail = [] → scan'.pending = none := by
  obtain ⟨sound, settles⟩ := scanRecords_ledger crypto realize floor checkpoint entries scan idle
  have reads : ∀ scan : Scan C O, scan.pending = none →
      ∃ scan', scanRecords crypto realize checkpoint floor tail scan = .ok scan' ∧
        (tail = [] → scan'.pending = none) := by
    intro scan idle
    rcases ledger.inFlight with rfl | ⟨height, frame, prepared, source, witness, start, -⟩
    · exact ⟨scan, rfl, fun _ => idle⟩
    cases below : belowCheckpoint checkpoint height with
    | false =>
      rcases scanRecords_inFlight crypto realize floor start below scan idle with rfl | ⟨_, _, rfl, -, read⟩
      exacts [⟨scan, rfl, fun _ => idle⟩, ⟨_, read, nofun⟩]
    | true =>
      refine ⟨scan, scanRecords_below crypto realize floor (fun record mem => ?_) scan, fun _ => idle⟩
      have mem := start.subset mem
      rw [openingRecords_eq, mem_cons] at mem
      rcases mem with rfl | mem
      · exact below
      · rw [(marks_of_mem_body mem).2]; exact below
  rw [ledger.records_eq, scanRecords, foldlM_append]
  refine ⟨(sound kept).bind fun mid read => ?_, fun scan' ended empty => ?_⟩
  · obtain ⟨scan', ended, -⟩ := reads mid (settles mid read).idle
    rw [scanRecords] at ended
    rw [ended]
    exact .ok scan'
  · obtain ⟨mid, read, rest⟩ := bind_eq_ok.mp ended
    obtain ⟨scan'', ended, idle⟩ := reads mid (settles mid read).idle
    obtain rfl : scan'' = scan' := by simpa using ended.symm.trans rest
    exact idle empty

theorem classifyTrailing_notCorrupt (height : Nat) (moved claims : List ModuleId) :
    NotCorrupt (classifyTrailing height moved claims) := by
  intro text
  unfold classifyTrailing
  dsimp only
  split
  · simp
  split
  · simp
  split <;> simp

theorem rerunTrailing_notCorrupt (height : Nat) (frame : Bytes) (prepared : PreparedWork)
    (witness : Option Witness) (moved claims : List ModuleId) (scan : Scan C O) (store : Store) :
    NotCorrupt (rerunTrailing crypto realize height frame prepared witness moved claims scan store).1 := by
  have replays : ∀ hook : CommitWitness Store, ∀ label commitOnly,
      NotCorrupt ((replayBatch crypto realize hook height frame prepared witness commitOnly scan.code
        scan.host store).1 >>= checkDisposition label height none) := fun hook label commitOnly =>
    NotCorrupt.bind (replayBatch_notCorrupt _ _ _ _ _ _ _ _ _ _ _)
      fun _ _ => checkDisposition_notCorrupt _ _ _ _
  simp only [rerunTrailing]
  split
  · exact replays _ _ none
  split
  · rename_i classified
    intro text fails
    cases fails
    exact classifyTrailing_notCorrupt height moved claims text classified
  split
  · rename_i reran
    intro text fails
    cases fails
    exact replays _ "torn-block replay" (some _) text (congrArg Prod.fst reran)
  · split <;> simp [NotCorrupt]

/-- Rolling a trailing block forward fails only on the state, given where the block starts. -/
theorem rollForward_notCorrupt (claims : List ModuleId) {position : Nat} (block : PendingBlock)
    (scan : Scan C O) (store : Store) :
    NotCorrupt (rollForward crypto realize claims (some position) block scan store).1 := by
  intro text
  unfold rollForward
  split
  · rename_i failed
    simp only [trailingWork] at failed
    split at failed
    · cases failed
    · split at failed
      · cases failed; simp
      · cases failed
  dsimp only
  split
  · rename_i failed
    simp only [rewriteTrailing] at failed
    split at failed
    · cases failed
    split at failed
    · cases failed; simp
    · cases failed
  split
  · rename_i reran
    intro fails
    cases fails
    exact rerunTrailing_notCorrupt crypto realize _ _ _ _ _ _ _ _ text (congrArg Prod.fst reran)
  split
  · rename_i failed
    intro fails
    cases fails
    simp only [BlockSource.verify] at failed
    split at failed
    · cases failed
    · split at failed <;> cases failed
  · simp

theorem verifyTip_notCorrupt (scan : Scan C O) : NotCorrupt (verifyTip realize scan) := by
  refine NotCorrupt.bind ?_ fun reached _ => ?_
  · unfold reachTip
    split
    · exact .ok _
    split
    · exact .ok _
    · exact fun _ => by simp
  · simp only [checkTip]
    split
    · exact .ok _
    · exact fun _ => by simp

/-- **Recovery of a ledger** never finds the journal corrupt. -/
theorem recover_ledger (store : Store) (ledger : Ledgered entries tail store.journal.records)
    (kept : ∀ entry ∈ entries, entry.isRefused = false) (manifest : Manifest) (code : Host C O)
    (host : HostState C) : NotCorrupt (recover crypto realize manifest code host store).1 := by
  have finishes : ∀ rolled scan, NotCorrupt (verifyTip realize scan >>= fun reached =>
      .ok (scan.recovered rolled, reached)) := fun rolled scan =>
    (verifyTip_notCorrupt realize scan).bind fun _ _ => .ok _
  simp only [recover]
  split
  · rename_i failed
    intro text fails
    cases fails
    exact (scanRecords_notCorrupt crypto realize _ ledger kept _ rfl).1 text failed
  rename_i scan read
  split
  · exact finishes false scan
  rename_i block opened
  have inFlight : tail ≠ [] := fun empty => by
    have idle := (scanRecords_notCorrupt crypto realize _ ledger kept _ rfl).2 scan read empty
    rw [opened] at idle
    cases idle
  obtain ⟨position, last⟩ : ∃ position, store.journal.lastBlockPosition = some position := by
    rcases ledger.inFlight.shape with empty | ⟨height, frame, source, body, rfl, -, -⟩
    · exact absurd empty inFlight
    have mem : .block height frame source ∈ store.journal.records := by
      rw [ledger.records_eq]
      simp
    exact store.journal.lastBlockPosition_of_mem mem
  rw [last]
  split
  · rename_i failed
    intro text fails
    cases fails
    exact rollForward_notCorrupt crypto realize _ block scan store text (congrArg Prod.fst failed)
  · exact finishes true _

end Ducktape.Recovery
