import Ducktape.Recovery.Journal

/-! # Blocks under assembly

Replay reads a block back record by record. `PendingBlock` is the block assembled so far; the records
that follow the batch (prepared work, schedule, trace, witness) extend it, and `PendingBlock.settled`
and `PendingBlock.trailing` say what a block can be replayed from once the journal sealed it or ended. -/

namespace Ducktape

/-- Whether a block's prepared work has been closed. -/
inductive Schedule
  | opened
  | closed
  deriving DecidableEq

/-- One block assembled from its records. -/
structure PendingBlock where
  height : Nat
  frame : Bytes
  source : BlockSource
  prepared : PreparedWork
  schedule : Schedule
  /-- The trace entries so far, by unit: the witness being assembled. -/
  reads : List Observed
  witness : Option Witness

/-- What a trailing block can be replayed from. -/
inductive Trailing
  /-- The schedule closed: the block may have begun applying. -/
  | scheduled (frame : Bytes) (prepared : PreparedWork) (witness : Option Witness)
  /-- The schedule never closed: the block never began applying. -/
  | unscheduled (frame : Bytes)

/-- A list grown to `n` units, the new ones without entries. -/
def growUnits (units : List Observed) (n : Nat) : List Observed :=
  units ++ List.replicate (n - units.length) ⟨[]⟩

namespace PendingBlock

/-- A block right after its batch. -/
def opening (height : Nat) (frame : Bytes) (source : BlockSource) : PendingBlock :=
  ⟨height, frame, source, ⟨none, [], []⟩, .opened, [], none⟩

/-- `pending_block_mut`: the block a following record at `height` belongs to. -/
def expect (pending : Option PendingBlock) (height : Nat) (what : String) :
    Except RecoveryError PendingBlock :=
  match pending with
  | none => .error (.corrupt s!"{what} at height {height} without its block record")
  | some block =>
    if block.height ≠ height then
      let inside := block.height
      .error (.corrupt s!"{what} at height {height} inside block {inside}")
    else .ok block

variable (block : PendingBlock)

/-- One prepared call. -/
def addCall (call : PreparedCall) : PendingBlock :=
  { block with prepared := { block.prepared with calls := block.prepared.calls ++ [call] } }

/-- One prepared delivery. -/
def addDelivery (delivery : PreparedDelivery) : PendingBlock :=
  { block with
    prepared := { block.prepared with deliveries := block.prepared.deliveries ++ [delivery] } }

/-- The close of the prepared work. -/
def close (calls deliveries : Nat) (advance : Option Msg) : Except RecoveryError PendingBlock :=
  let held := block.prepared.calls.length
  let heldDeliveries := block.prepared.deliveries.length
  if ¬ (held = calls ∧ heldDeliveries = deliveries) then
    .error (.corrupt s!"block {block.height}: schedule closes {calls} calls / {deliveries} deliveries but the journal holds {held} / {heldDeliveries}")
  else match block.schedule with
    | .closed => .error (.corrupt s!"block {block.height}: schedule closed twice")
    | .opened => .ok { block with
        prepared := { block.prepared with advance := advance }, schedule := .closed }

/-- One trace entry. Units arrive in attempt order, and one without entries leaves no record. -/
def addTrace (unit : Nat) (trace : Trace) : Except RecoveryError PendingBlock :=
  match block.schedule with
  | .opened => .error (.corrupt s!"block {block.height}: a read before its schedule closed")
  | .closed =>
    if block.witness.isSome then
      .error (.corrupt s!"block {block.height}: a read after its witness closed")
    else if unit + 1 < block.reads.length then
      let last := block.reads.length - 1
      .error (.corrupt s!"block {block.height}: unit {unit} read after unit {last}")
    else .ok { block with
      reads := (growUnits block.reads (unit + 1)).modify unit fun o => ⟨o.trace ++ [trace]⟩ }

/-- The close of the witness: the units past the last entry made none. -/
def closeWitness (units : Nat) : Except RecoveryError PendingBlock :=
  match block.schedule with
  | .opened => .error (.corrupt s!"block {block.height}: witness before its schedule closed")
  | .closed =>
    if block.witness.isSome then
      .error (.corrupt s!"block {block.height}: witness closed twice")
    else if units < block.reads.length then
      let held := block.reads.length
      .error (.corrupt s!"block {block.height}: witness closes {units} units but the journal holds reads of {held}")
    else .ok { block with reads := [], witness := some ⟨growUnits block.reads units⟩ }

/-- `sealed`: an applied block has its witness, a rejected one may never have entered the host. -/
def settled (disposition : Disposition) :
    Except RecoveryError (Bytes × PreparedWork × Option Witness) :=
  match block.schedule with
  | .opened => .error (.corrupt s!"block {block.height}: sealed with an open schedule")
  | .closed =>
    if disposition = .rejected then .ok (block.frame, block.prepared, block.witness)
    else match block.witness with
      | none => .error (.corrupt s!"block {block.height}: sealed without its witness")
      | some witness => .ok (block.frame, block.prepared, some witness)

/-- `trailing`: what an unsealed block can be replayed from. -/
def trailing : Trailing :=
  match block.schedule with
  | .closed => .scheduled block.frame block.prepared block.witness
  | .opened => .unscheduled block.frame

end PendingBlock

/-- The height a record concerns, if it is one of a block's. -/
def Record.height? : Record → Option Nat
  | .pinned _ | .cutover .. => none
  | .block height .. | .preparedCall height _ | .preparedDelivery height _ | .schedule height ..
  | .trace height .. | .witnessed height _ => some height
  | .sealed outcome => some outcome.height

/-- One record into the block under assembly, for every record but a seal. -/
def assemble (pending : Option PendingBlock) : Record → Except RecoveryError (Option PendingBlock)
  | .pinned _ | .cutover .. | .sealed _ => .ok pending
  | .block height frame source =>
    match pending with
    | some block =>
      let first := block.height
      .error (.corrupt s!"two unsealed blocks ({first} then {height}) — the WAL never leaves more than one apply in flight")
    | none => .ok (some (.opening height frame source))
  | .preparedCall height call => do
      let block ← PendingBlock.expect pending height "prepared call"
      .ok (some (block.addCall call))
  | .preparedDelivery height delivery => do
      let block ← PendingBlock.expect pending height "prepared delivery"
      .ok (some (block.addDelivery delivery))
  | .schedule height calls deliveries advance => do
      let block ← PendingBlock.expect pending height "schedule"
      let block ← block.close calls deliveries advance
      .ok (some block)
  | .trace height unit trace => do
      let block ← PendingBlock.expect pending height "read"
      let block ← block.addTrace unit trace
      .ok (some block)
  | .witnessed height units => do
      let block ← PendingBlock.expect pending height "witness"
      let block ← block.closeWitness units
      .ok (some block)

/-- The block a seal closes, with what it is replayed from. -/
def takeSealed (pending : Option PendingBlock) (outcome : BlockSeal) :
    Except RecoveryError (Bytes × PreparedWork × Option Witness) :=
  let height := outcome.height
  match pending with
  | none => .error (.corrupt s!"seal at height {height} without its block record")
  | some block =>
    if block.height ≠ height then
      let open_ := block.height
      .error (.corrupt s!"seal height {height} does not match its block record {open_}")
    else do
      block.source.verify outcome
      block.settled outcome.disposition

end Ducktape
