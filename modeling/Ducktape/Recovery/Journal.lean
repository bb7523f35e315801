import Ducktape.Node.Drain

/-! # The op journal

The records a node journals and the store that holds them. `journalSink` is the live writer: a batch
with its prepared work before the block runs, the witness before anything commits, the seal once the
block settled. `readFinalizedFrames` is the reader that serves sealed blocks to a peer; the reader
that replays them at boot is in `Ducktape.Recovery.Recover`. -/

namespace Ducktape

/-! ## Records -/

/-- The ways recovery fails. -/
inductive RecoveryError
  | storage (text : String)
  /-- A record sequence no writer leaves: the journal is damaged. -/
  | corrupt (text : String)
  /-- The substrates disagree with the journal in a way replay cannot reconcile. -/
  | torn (text : String)
  /-- The recomposed state is not what was sealed. -/
  | verify (text : String)
  | fieldOverCap (text : String)
  | rangePruned (afterHeight retainedStart : Nat)
  deriving DecidableEq

/-- Who ordered a block: consensus, or a peer whose claimed outcome the block must reproduce. -/
inductive BlockSource
  | consensus
  | catchup (disposition : Disposition) (roots : List (ModuleId × StateRoot)) (rootHash : StateRoot)
  deriving DecidableEq

/-- A caught-up block must land as its peer claimed. -/
def BlockSource.verify (source : BlockSource) (outcome : BlockSeal) : Except RecoveryError Unit :=
  match source with
  | .consensus => .ok ()
  | .catchup disposition roots rootHash =>
    if outcome.disposition = disposition ∧ outcome.roots = roots ∧ outcome.rootHash = rootHash then .ok ()
    else .error (.verify
      s!"served seal mismatch at height {outcome.height}: replay cannot settle this catch-up block")

/-- One journal entry. -/
inductive Record
  /-- A locally packed batch, durable before it is proposed. -/
  | pinned (frame : Bytes)
  /-- A finalized batch about to be applied; its prepared work follows. -/
  | block (height : Nat) (frame : Bytes) (source : BlockSource)
  | preparedCall (height : Nat) (call : PreparedCall)
  | preparedDelivery (height : Nat) (delivery : PreparedDelivery)
  /-- The close of a block's prepared work. -/
  | schedule (height calls deliveries : Nat) (advance : Option Msg)
  /-- One read or dispatch of a unit, in attempt order. -/
  | trace (height unit : Nat) (trace : Trace)
  /-- The close of a block's witness. -/
  | witnessed (height units : Nat)
  | sealed (outcome : BlockSeal)
  | cutover (epoch viewBase : Nat) (participants residents : List Bytes)

/-! ## The store -/

/-- The retained records and the position of the first of them. -/
structure Journal where
  start : Nat
  records : List Record

namespace Journal

/-- The next append position. -/
def size (journal : Journal) : Nat := journal.start + journal.records.length

/-- Append records. -/
def append (journal : Journal) (records : List Record) : Journal :=
  { journal with records := journal.records ++ records }

/-- The records from a position on. -/
def replay (journal : Journal) (position : Nat) : List Record :=
  journal.records.drop (position - journal.start)

/-- Drop the records from a position on. -/
def rewind (journal : Journal) (position : Nat) : Journal :=
  { journal with records := journal.records.take (position - journal.start) }

/-- The position of the last block record. -/
def lastBlockPosition (journal : Journal) : Option Nat :=
  ((journal.records.zipIdx journal.start).filter fun entry => match entry.1 with
    | .block .. => true
    | _ => false).getLast?.map (·.2)

end Journal

/-- Heights and the positions of their block records, by height. -/
abbrev HeightIndex := List (Nat × Nat)

/-- Map a height to a position. -/
def HeightIndex.insert (index : HeightIndex) (height position : Nat) : HeightIndex :=
  index.filter (·.1 < height) ++ (height, position) :: index.filter (height < ·.1)

/-- `build_height_index`: the block records of a journal. -/
def Journal.heightIndex (journal : Journal) : HeightIndex :=
  (journal.records.zipIdx journal.start).foldl (fun index entry => match entry.1 with
    | .block height .. => HeightIndex.insert index height entry.2
    | _ => index) []

/-- The recovery store: the journal with its height index, and the checkpoint's height. -/
structure Store where
  journal : Journal
  heightIndex : HeightIndex
  manifestHeight : Option Nat

/-- Append records to the store's journal. -/
def Store.append (store : Store) (records : List Record) : Store :=
  { store with journal := store.journal.append records }

/-- The records that open a block: the batch, its prepared work, and the close of that. -/
def blockRecords (height : Nat) (frame : Bytes) (prepared : PreparedWork) (source : BlockSource) :
    List Record :=
  .block height frame source :: prepared.calls.map (.preparedCall height) ++
    prepared.deliveries.map (.preparedDelivery height) ++
    [.schedule height prepared.calls.length prepared.deliveries.length prepared.advance]

/-- The records of one unit's trace. -/
def unitRecords (height : Nat) (unit : Observed × Nat) : List Record :=
  unit.1.trace.map (.trace height unit.2)

/-- The records of a block's witness. -/
def witnessRecords (height : Nat) (witness : Witness) : List Record :=
  witness.units.zipIdx.flatMap (unitRecords height) ++ [.witnessed height witness.units.length]

/-- `write_pre_apply`: open a block. -/
def Store.writePreApply (store : Store) (height : Nat) (frame : Bytes) (prepared : PreparedWork)
    (source : BlockSource) : Store :=
  { store.append (blockRecords height frame prepared source) with
    heightIndex := store.heightIndex.insert height store.journal.size }

/-- The store as the ordered lane's sink. -/
def journalSink : BlockSink Store where
  pin frame store := (.ok (), store.append [.pinned frame])
  preApply height frame prepared store :=
    (.ok (), store.writePreApply height frame prepared .consensus)
  witness height witness store := (.ok (), store.append (witnessRecords height witness))
  sealBlock outcome store := (.ok (), store.append [.sealed outcome])
  cutover epoch viewBase participants residents store :=
    (.ok (), store.append [.cutover epoch viewBase participants residents])

/-! ## Serving sealed blocks -/

/-- One block and its seal. -/
structure JournalFrame where
  height : Nat
  frame : Bytes
  disposition : Disposition
  roots : List (ModuleId × StateRoot)
  rootHash : StateRoot
  deriving DecidableEq

/-- A block read without its seal so far. -/
abbrev OpenFrame := Nat × Bytes × BlockSource

/-- Pair blocks with their seals until `limit` are collected, the range ends or the journal does. -/
def collectFrames (after upTo limit : Nat) :
    List Record → Option OpenFrame → List JournalFrame →
      Except RecoveryError (Option OpenFrame × List JournalFrame)
  | [], pending, out => .ok (pending, out)
  | record :: records, pending, out =>
    if limit ≤ out.length then .ok (pending, out)
    else match record with
      | .block height frame source =>
        if height ≤ after then collectFrames after upTo limit records pending out
        else if upTo < height then .ok (pending, out)
        else match pending with
          | some (prev, _, _) =>
            .error (.corrupt s!"block {height} appeared before block {prev} was sealed")
          | none => collectFrames after upTo limit records (some (height, frame, source)) out
      | .sealed outcome =>
        if outcome.height ≤ after then collectFrames after upTo limit records pending out
        else if upTo < outcome.height then .ok (pending, out)
        else match pending with
          | none => .error (.corrupt s!"seal at height {outcome.height} without its block record")
          | some (height, frame, source) =>
            if height ≠ outcome.height then
              .error (.corrupt s!"seal height {outcome.height} does not match block {height}")
            else do
              source.verify outcome
              collectFrames after upTo limit records none
                (out ++ [⟨outcome.height, frame, outcome.disposition, outcome.roots, outcome.rootHash⟩])
      | _ => collectFrames after upTo limit records pending out

/-- A block of the range without its seal is damage. -/
def finishFrames : Option OpenFrame × List JournalFrame → Except RecoveryError (List JournalFrame)
  | (some (height, _, _), _) =>
    .error (.corrupt s!"block {height} in requested range is missing its seal")
  | (none, out) => .ok out

/-- `read_finalized_frames_from`: at most `limit` sealed blocks in `(after, upTo]`. -/
def readFinalizedFrames (store : Store) (after upTo limit : Nat) :
    Except RecoveryError (List JournalFrame) :=
  if upTo < after then .error (.corrupt s!"invalid frame range ({after}, {upTo}]")
  else if after = upTo ∨ limit = 0 then .ok []
  else match store.heightIndex with
    | [] =>
      match store.manifestHeight.filter (after < ·) with
      | some retainedStart => .error (.rangePruned after retainedStart)
      | none => .ok []
    | (firstRetained, _) :: _ =>
      -- a client right below the first retained block can still be served
      if after < firstRetained - 1 then .error (.rangePruned after (firstRetained - 1))
      else match store.heightIndex.find? (after < ·.1) with
        | none => .ok []
        | some (startHeight, startPos) =>
          if upTo < startHeight then .ok []
          else do
            let collected ←
              collectFrames after upTo limit (store.journal.replay startPos) none []
            finishFrames collected

end Ducktape
