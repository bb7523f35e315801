import Ducktape.Recovery.Pending
import Mathlib.Data.Finset.Card
import Mathlib.Data.List.Sort

/-! # Boot-time replay

`recover` rolls a host forward from a checkpoint to the journal's tip. Every module resumes at its own
height: the in-memory ones at the checkpoint, the disk-backed ones wherever their own store stopped.
A first pass places each disk-backed module by the last seal its root matches (`seedFloors`), or by
its height cursor (`trailingClaims`); then each sealed block is skipped, replayed, or replayed for
some modules only (`planSeal`), and a trailing unsealed block is rolled forward (`rollForward`). -/

namespace Ducktape.Recovery

/-! ## The checkpoint and the result -/

/-- What a checkpoint records for replay. -/
structure Manifest where
  height : Option Nat
  epoch : Nat
  viewBase : Nat
  participants : List Bytes
  residents : List Bytes
  rootHash : StateRoot
  roots : List (ModuleId × StateRoot)
  appliedFrames : List (Nat × FrameId)
  deriving DecidableEq

/-- What replay leaves. -/
structure Recovered where
  height : Option Nat
  rootHash : StateRoot
  epoch : Nat
  viewBase : Nat
  participants : List Bytes
  residents : List Bytes
  frames : List Bytes
  blocks : List (Nat × List (ModuleId × StateRoot))
  appliedFrames : List (Nat × FrameId)
  applied : Nat
  skipped : Nat
  rolledForward : Bool
  deriving DecidableEq

/-- Every module's root, where one is known. -/
abbrev Roots := ModuleId → Option StateRoot

/-- Record roots, later ones over earlier ones. -/
def Roots.insertAll (expected : Roots) (roots : List (ModuleId × StateRoot)) : Roots :=
  roots.foldl (fun expected entry => Function.update expected entry.1 (some entry.2)) expected

/-- `Debug` of a root. -/
def debugRoot (root : StateRoot) : String := s!"StateRoot({hexLower root})"

/-- `Debug` of an optional value. -/
def debugOption {α : Type} (debug : α → String) : Option α → String
  | none => "None"
  | some a => let text := debug a; s!"Some({text})"

/-- `Debug` of ids between a pair of brackets. -/
def debugIds (opening closing : String) (ids : List ModuleId) : String :=
  opening ++ ", ".intercalate (ids.map fun id => "\"" ++ id ++ "\"") ++ closing

/-- `Debug` of a disposition. -/
def debugDisposition : Disposition → String
  | .applied => "Applied"
  | .rejected => "Rejected"
  | .discarded => "Discarded"

/-! ## Durable floors -/

/-- Is a height at or below the checkpoint? -/
def belowCheckpoint (checkpoint : Option Nat) (height : Nat) : Bool := checkpoint.any (height ≤ ·)

/-- The modules a seal finds at its own roots are durable at its height. -/
def floorAt (cohort : List ModuleId) (root : Roots) (outcome : BlockSeal)
    (floor : ModuleId → Option Nat) : ModuleId → Option Nat :=
  outcome.roots.foldl (fun floor entry =>
    if entry.1 ∈ cohort ∧ root entry.1 = some entry.2 then
      Function.update floor entry.1 (some outcome.height)
    else floor) floor

/-- One record's floors. -/
def floorStep (checkpoint : Option Nat) (cohort : List ModuleId) (root : Roots)
    (floor : ModuleId → Option Nat) : Record → ModuleId → Option Nat
  | .sealed outcome =>
    if belowCheckpoint checkpoint outcome.height then floor else floorAt cohort root outcome floor
  | _ => floor

/-- The last sealed height above the checkpoint whose root each disk-backed module stands at. -/
def seedFloors (checkpoint : Option Nat) (cohort : List ModuleId) (root : Roots)
    (records : List Record) : ModuleId → Option Nat :=
  records.foldl (floorStep checkpoint cohort root) fun _ => none

/-- The unsealed block after one more record. -/
def trailingStep (checkpoint : Option Nat) (pending : Option Nat) : Record → Option Nat
  | .block height .. => if belowCheckpoint checkpoint height then pending else some height
  | .sealed outcome =>
    if belowCheckpoint checkpoint outcome.height then pending
    else if pending = some outcome.height then none else pending
  | _ => pending

/-- The height of the journal's unsealed block, if any. -/
def trailingWalHeight (checkpoint : Option Nat) (records : List Record) : Option Nat :=
  records.foldl (trailingStep checkpoint) none

section Claims

variable {C O : Type} (H : Host C O) (host : HostState C)

/-- `seed_trailing_claims`: the disk-backed modules no seal places whose height cursor claims the
trailing block. -/
def trailingClaims (expected : Roots) (trailing : Option Nat) (floor : ModuleId → Option Nat) :
    List ModuleId :=
  match trailing with
  | none => []
  | some trailing => (blockDurableIds H).filter fun id =>
    (floor id).isNone && (moduleRoot H host id).isSome &&
      decide (moduleRoot H host id ≠ expected id) &&
      decide (durableCommitHeight H host id = some trailing)

/-- The floors with the claims. -/
def withClaims (trailing : Option Nat) (claims : List ModuleId) (floor : ModuleId → Option Nat) :
    ModuleId → Option Nat := fun id => if id ∈ claims then trailing else floor id

/-- The adopted baseline: a module neither the checkpoint nor a floor places stands at its root. -/
def adopt (floor : ModuleId → Option Nat) (expected : Roots) : Roots := fun id =>
  match expected id with
  | some root => some root
  | none => if (floor id).isSome then none else moduleRoot H host id

end Claims

/-- `classify_trailing`: an unexplained mover beside a claimant, or a second claimant, is refused. -/
def classifyTrailing (height : Nat) (moved claims : List ModuleId) : Except RecoveryError Unit :=
  let verified := moved.filter (· ∈ claims)
  let unexplained := moved.filter (· ∉ claims)
  let stuck := "wipe app state and re-sync (keep the consensus journal)"
  let verifiedText := debugIds "\x7b" "\x7d" verified
  let unexplainedText := debugIds "[" "]" unexplained
  let count := verified.length
  if verified = [] then .ok ()
  else if unexplained ≠ [] then
    .error (.torn s!"trailing block {height}: module(s) {unexplainedText} moved off their pre-block roots with no seal and no verified height-cursor claim, alongside verified claimant(s) {verifiedText} — unverifiable trailing state. {stuck}")
  else if 2 ≤ count then
    .error (.torn s!"trailing block {height}: {count} per-block-durable disk substrates all claim its commit — the multi-store atomicity limit; an unsealed block's selective replay cannot be verified across >1 substrate. {stuck}")
  else .ok ()

/-! ## Replaying one batch -/

/-- The code designated for a height: `realize_module_swaps` over a code source. -/
abbrev Realize (C O : Type) := Nat → Host C O → HostState C → Except Error (Host C O × HostState C)

/-- A replayed block: how it landed, what it dispatched, and the host after it. -/
structure Replayed (C O : Type) where
  disposition : Disposition
  dispatches : List DispatchRecord
  code : Host C O
  host : HostState C

/-- The ops replay builds from a batch's members: those that decode. -/
def replayOps (crypto : FrameCrypto) (members : List Bytes) : List BlockOp :=
  decodableOps crypto members

/-- `frame_targets`: the modules a batch's decodable members address. -/
def frameTargets (crypto : FrameCrypto) (frame : Bytes) : List ModuleId :=
  match decodeBatch frame with
  | .error _ => []
  | .ok members => (replayOps crypto members).map (·.msg.target)

section Batch

variable {C O J : Type} (crypto : FrameCrypto) (realize : Realize C O)

/-- `replay_batch`: a journaled batch as one block, on the code designated for its height. -/
def replayBatch (hook : CommitWitness J) (height : Nat) (frame : Bytes) (prepared : PreparedWork)
    (witness : Option Witness) (commitOnly : Option (Finset ModuleId)) (code : Host C O)
    (host : HostState C) (sink : J) : Except RecoveryError (Replayed C O) × J :=
  match realize height code host with
  | .error e =>
    let reason := e.display
    (.error (.verify s!"code-swap realization at height {height}: {reason}"), sink)
  | .ok (code, host) =>
    match decodeBatch frame with
    | .error _ => (.ok ⟨.rejected, [], code, host⟩, sink)
    | .ok members =>
      let ops := replayOps crypto members
      let ran := match commitOnly with
        | none => submitBlockReplaying code hook ⟨height, height⟩ ops prepared witness host sink
        | some set =>
          submitBlockCommitting code hook ⟨height, height⟩ ops prepared witness set host sink
      match ran with
      | (.error (.rejected _), host, sink) => (.ok ⟨.rejected, [], code, host⟩, sink)
      | (.error (.fatal fault), _, sink) =>
        let reason := fault.display
        (.error (.torn s!"boundary fault during replay: {reason}"), sink)
      | (.ok outcome, host, sink) =>
        let disposition := if outcome.intoTrace.1 then Disposition.applied else .rejected
        (.ok ⟨disposition, outcome.intoTrace.2, code, host⟩, sink)

/-- The sealed disposition a replay must reproduce. -/
def checkDisposition (label : String) (height : Nat) (expected : Option Disposition)
    (replayed : Replayed C O) : Except RecoveryError (Replayed C O) :=
  match expected with
  | none => .ok replayed
  | some disposition =>
    if replayed.disposition = disposition then .ok replayed
    else
      let landed := debugDisposition replayed.disposition
      let sealed := debugDisposition disposition
      .error (.verify s!"{label} {height} landed as {landed}, sealed as {sealed}")

/-- `apply_block`: the forward replay. -/
def applyBlock (hook : CommitWitness J) (height : Nat) (frame : Bytes) (prepared : PreparedWork)
    (witness : Option Witness) (expected : Option Disposition) (code : Host C O)
    (host : HostState C) (sink : J) : Except RecoveryError (Replayed C O) × J :=
  let (replayed, sink) :=
    replayBatch crypto realize hook height frame prepared witness none code host sink
  (replayed.bind (checkDisposition "replayed block" height expected), sink)

/-- `apply_block_committing`: the replay that commits only some modules. -/
def applyBlockCommitting (hook : CommitWitness J) (height : Nat) (frame : Bytes)
    (prepared : PreparedWork) (witness : Option Witness) (expected : Option Disposition)
    (commitOnly : Finset ModuleId) (code : Host C O) (host : HostState C) (sink : J) :
    Except RecoveryError (Replayed C O) × J :=
  let (replayed, sink) :=
    replayBatch crypto realize hook height frame prepared witness (some commitOnly) code host sink
  (replayed.bind (checkDisposition "torn-block replay" height expected), sink)

end Batch

/-! ## Replaying the sealed blocks -/

/-- Replay's progress over the records. -/
structure Scan (C O : Type) where
  code : Host C O
  host : HostState C
  /-- The roots after the last block scanned: what every module would stand at. -/
  expected : Roots
  tipHeight : Option Nat
  tipHash : StateRoot
  epoch : Nat
  viewBase : Nat
  participants : List Bytes
  residents : List Bytes
  frames : List Bytes
  blocks : List (Nat × List (ModuleId × StateRoot))
  appliedFrames : List (Nat × FrameId)
  pending : Option PendingBlock
  applied : Nat
  skipped : Nat

/-- What a sealed block needs. -/
inductive SealPlan
  /-- Nothing: it changed no root, or every module it changed holds it already. -/
  | skip
  /-- No module holds it. -/
  | forward
  /-- Only the modules of `commitOnly` do not hold it. -/
  | selective (commitOnly : Finset ModuleId)
  /-- Some module it changed is neither before nor past it. -/
  | torn
  deriving DecidableEq

/-- The modules a sealed block changed, by the recorded roots. -/
def changedBy (expected : Roots) (roots : List (ModuleId × StateRoot)) :
    List (ModuleId × StateRoot) :=
  roots.filter fun entry => expected entry.1 ≠ some entry.2

/-- Does the module still stand at the roots before the block? -/
def atPre (root expected : Roots) (entry : ModuleId × StateRoot) : Bool :=
  root entry.1 = expected entry.1

/-- Did the module's own store go strictly past the block? -/
def aheadOf (floor : ModuleId → Option Nat) (height : Nat) (entry : ModuleId × StateRoot) : Bool :=
  (floor entry.1).any (height < ·)

/-- Does the module's own store hold the block, at its sealed root or strictly past it? -/
def holdsBlock (root : Roots) (floor : ModuleId → Option Nat) (height : Nat)
    (entry : ModuleId × StateRoot) : Bool :=
  root entry.1 = some entry.2 || aheadOf floor height entry

/-- How a sealed block is replayed. -/
def planSeal (root expected : Roots) (floor : ModuleId → Option Nat) (height : Nat)
    (changed : List (ModuleId × StateRoot)) : SealPlan :=
  if changed.all (holdsBlock root floor height) then .skip
  else if changed.all (atPre root expected) then .forward
  else
    let commitOnly := ((changed.filter (atPre root expected)).map (·.1)).toFinset
    let held := changed.countP fun entry =>
      !atPre root expected entry && holdsBlock root floor height entry
    if commitOnly.card + held ≠ changed.length ∨ commitOnly = ∅ then .torn
    else .selective commitOnly

/-- Every module of `entries` must stand at its sealed root. -/
def verifyRoots (label : String) (height : Nat) (root : Roots) :
    List (ModuleId × StateRoot) → Except RecoveryError Unit
  | [] => .ok ()
  | (id, sealed) :: entries =>
    if root id = some sealed then verifyRoots label height root entries
    else
      let live := debugOption debugRoot (root id)
      let wanted := debugRoot sealed
      .error (.verify s!"{label} {height} left module {id} at {live}, sealed root was {wanted}")

section Scan

variable {C O : Type} (crypto : FrameCrypto) (realize : Realize C O)

/-- The host after a replayed block. -/
def Scan.replayed (scan : Scan C O) (replayed : Replayed C O) : Scan C O :=
  { scan with code := replayed.code, host := replayed.host, applied := scan.applied + 1 }

/-- Replay a sealed block as far as its modules need it. -/
def replaySeal (floor : ModuleId → Option Nat) (outcome : BlockSeal) (frame : Bytes)
    (prepared : PreparedWork) (witness : Option Witness) (scan : Scan C O) :
    Except RecoveryError (Scan C O) :=
  let height := outcome.height
  let changed := changedBy scan.expected outcome.roots
  match planSeal (moduleRoot scan.code scan.host) scan.expected floor height changed with
  | .skip => .ok { scan with skipped := scan.skipped + 1 }
  | .forward => do
      let replayed ← (applyBlock crypto realize noWitness height frame prepared witness
        (some outcome.disposition) scan.code scan.host ()).1
      verifyRoots "replayed block" height (moduleRoot replayed.code replayed.host) changed
      .ok (scan.replayed replayed)
  | .selective commitOnly => do
      let replayed ← (applyBlockCommitting crypto realize noWitness height frame prepared witness
        (some outcome.disposition) commitOnly scan.code scan.host ()).1
      -- a store strictly past the block is checked at its own height
      verifyRoots "torn-block replay" height (moduleRoot replayed.code replayed.host)
        (changed.filter fun entry => !aheadOf floor height entry)
      .ok (scan.replayed replayed)
  | .torn => .error (.torn s!"block {height}: touched modules are neither all-applied nor all-unapplied and cannot be reconciled by selective replay — wipe app state and re-sync (keep the consensus journal)")

/-- A block's outcome becomes the tip. -/
def Scan.advance (scan : Scan C O) (outcome : BlockSeal) (frame : Bytes) : Scan C O :=
  { scan with
    expected := scan.expected.insertAll outcome.roots
    tipHeight := some outcome.height
    tipHash := outcome.rootHash
    blocks := scan.blocks ++ [(outcome.height, outcome.roots)]
    appliedFrames := scan.appliedFrames ++ [(outcome.height, frameId crypto frame)] }

/-- What a record says beside the block it belongs to. -/
def Scan.note (scan : Scan C O) : Record → Scan C O
  | .pinned frame | .block _ frame _ => { scan with frames := scan.frames ++ [frame] }
  | .cutover epoch viewBase participants residents =>
    -- monotone: a record from below the checkpoint must not regress it
    if scan.epoch < epoch then
      { scan with epoch := epoch, viewBase := viewBase, participants := participants,
                  residents := residents }
    else scan
  | _ => scan

/-- One record. -/
def scanRecord (checkpoint : Option Nat) (floor : ModuleId → Option Nat) (scan : Scan C O)
    (record : Record) : Except RecoveryError (Scan C O) :=
  if record.height?.any (belowCheckpoint checkpoint) then .ok scan
  else match record with
    | .sealed outcome => do
        let (frame, prepared, witness) ← takeSealed scan.pending outcome
        let scan ← replaySeal crypto realize floor outcome frame prepared witness
          { scan with pending := none }
        .ok (scan.advance crypto outcome frame)
    | record => do
        let pending ← assemble scan.pending record
        .ok ({ scan with pending := pending }.note record)

/-- Every record, in order. -/
def scanRecords (checkpoint : Option Nat) (floor : ModuleId → Option Nat) (records : List Record)
    (scan : Scan C O) : Except RecoveryError (Scan C O) :=
  records.foldlM (scanRecord crypto realize checkpoint floor) scan

end Scan

/-! ## The trailing block -/

section Trailing

variable {C O : Type} (crypto : FrameCrypto) (realize : Realize C O)

/-- The store as the host's pre-commit hook. -/
def storeWitness : CommitWitness Store := sinkWitness journalSink

/-- The hook of a replay that has its witness already. -/
def keepWitness : CommitWitness Store where
  record _ _ store := (.ok (), store)

/-- The modules that stand elsewhere than the last block left them. -/
def movedModules (expected : Roots) (code : Host C O) (host : HostState C) : List ModuleId :=
  (changedBy expected (moduleRoots code host)).map (·.1)

/-- The journaled work of a trailing block, read afresh where its schedule never closed. -/
def trailingWork (block : PendingBlock) (scan : Scan C O) :
    Except RecoveryError (Bytes × PreparedWork × Option Witness) :=
  let height := block.height
  match block.trailing with
  | .scheduled frame prepared witness => .ok (frame, prepared, witness)
  | .unscheduled frame =>
    match prepareWork scan.code scan.host height with
    | .error e =>
      let reason := e.display
      .error (.torn s!"trailing block {height}: preparing its work afresh: {reason}")
    | .ok prepared => .ok (frame, prepared, none)

/-- A trailing block without a witness is journaled anew; with one, it stays as it is. -/
def rewriteTrailing (block : PendingBlock) (frame : Bytes) (prepared : PreparedWork)
    (witness : Option Witness) (moved : List ModuleId) (lastBlock : Option Nat) (store : Store) :
    Except RecoveryError Store :=
  let height := block.height
  if witness.isSome then .ok store
  else if moved ≠ [] then
    .error (.torn s!"trailing block {height}: state moved without a durable witness")
  else match lastBlock with
    | none => .error (.corrupt "trailing block has no journal position")
    | some position =>
      .ok ({ store with journal := store.journal.rewind position }.writePreApply height frame
        prepared block.source)

/-- Some module moved that the batch neither dispatched nor addressed. -/
def unexplainedMover (moved targets : List ModuleId) (dispatches : List DispatchRecord) :
    Option ModuleId :=
  moved.find? fun id => !(dispatches.any fun d => d.module = id) && id ∉ targets

/-- Re-run a trailing block: forward where nothing moved, else for the modules that did not. -/
def rerunTrailing (height : Nat) (frame : Bytes) (prepared : PreparedWork)
    (witness : Option Witness) (moved claims : List ModuleId) (scan : Scan C O) (store : Store) :
    Except RecoveryError (Replayed C O) × Store :=
  let hook := if witness.isSome then keepWitness else storeWitness
  if moved = [] then
    applyBlock crypto realize hook height frame prepared witness none scan.code scan.host store
  else match classifyTrailing height moved claims with
    | .error e => (.error e, store)
    | .ok () =>
      let commitOnly := scan.code.registry.ids.toFinset \ moved.toFinset
      match applyBlockCommitting crypto realize hook height frame prepared witness none commitOnly
          scan.code scan.host store with
      | (.error e, store) => (.error e, store)
      | (.ok replayed, store) =>
        match unexplainedMover moved (frameTargets crypto frame) replayed.dispatches with
        | some id => (.error (.torn s!"trailing block {height} neither dispatched nor targeted module {id}, which durably committed it — the observed state cannot come from this frame. wipe app state and re-sync (keep the consensus journal)"), store)
        -- the moved roots are the proof that the block applied live
        | none => (.ok { replayed with disposition := .applied }, store)

/-- Roll the trailing block forward and seal it from the observed outcome. -/
def rollForward (claims : List ModuleId) (lastBlock : Option Nat) (block : PendingBlock)
    (scan : Scan C O) (store : Store) : Except RecoveryError (Scan C O) × Store :=
  match trailingWork block scan with
  | .error e => (.error e, store)
  | .ok (frame, prepared, witness) =>
    let moved := movedModules scan.expected scan.code scan.host
    match rewriteTrailing block frame prepared witness moved lastBlock store with
    | .error e => (.error e, store)
    | .ok store =>
      match rerunTrailing crypto realize block.height frame prepared witness moved claims scan
          store with
      | (.error e, store) => (.error e, store)
      | (.ok replayed, store) =>
        let outcome : BlockSeal := ⟨block.height, replayed.disposition,
          moduleRoots replayed.code replayed.host,
          rootHash replayed.code replayed.host.committed⟩
        match block.source.verify outcome with
        | .error e => (.error e, store)
        | .ok () =>
          let scan := { scan with code := replayed.code, host := replayed.host }
          (.ok (scan.advance crypto outcome frame), store.append [.sealed outcome])

end Trailing

/-! ## Recovery -/

/-- One entry a height, the first of them. -/
def dedupHeights : List (Nat × FrameId) → List (Nat × FrameId)
  | [] => []
  | entry :: entries => match dedupHeights entries with
    | next :: rest => if entry.1 = next.1 then entry :: rest else entry :: next :: rest
    | [] => [entry]

/-- The restored replay window. -/
def restoreWindow (applied : List (Nat × FrameId)) : List (Nat × FrameId) :=
  OrderedNode.boundWindow (dedupHeights (applied.insertionSort fun a b => a.1 ≤ b.1))

section Recover

variable {C O : Type} (crypto : FrameCrypto) (realize : Realize C O)

/-- Replay's start: the checkpoint's values over the host as it booted. -/
def Scan.start (manifest : Manifest) (code : Host C O) (host : HostState C) (expected : Roots) :
    Scan C O where
  code := code
  host := host
  expected := expected
  tipHeight := manifest.height
  tipHash := manifest.rootHash
  epoch := manifest.epoch
  viewBase := manifest.viewBase
  participants := manifest.participants
  residents := manifest.residents
  frames := []
  blocks := []
  appliedFrames := manifest.appliedFrames
  pending := none
  applied := 0
  skipped := 0

/-- The code designated for the tip. -/
def reachTip (scan : Scan C O) : Except RecoveryError (Host C O × HostState C) :=
  match scan.tipHeight with
  | none => .ok (scan.code, scan.host)
  | some height => match realize height scan.code scan.host with
    | .ok reached => .ok reached
    | .error e =>
      let reason := e.display
      .error (.verify s!"code-swap realization at recovered tip {height}: {reason}")

/-- The recomposed root against the sealed one. -/
def checkTip (scan : Scan C O) (reached : Host C O × HostState C) :
    Except RecoveryError (Host C O × HostState C) :=
  let live := rootHash reached.1 reached.2.committed
  if live = scan.tipHash then .ok reached
  else
    let liveText := debugRoot live
    let tipText := debugRoot scan.tipHash
    let heightText := debugOption (fun height => s!"{height}") scan.tipHeight
    .error (.verify s!"recomposed root_hash {liveText} != sealed tip {tipText} at height {heightText}")

/-- The final verification. -/
def verifyTip (scan : Scan C O) : Except RecoveryError (Host C O × HostState C) :=
  reachTip realize scan >>= checkTip scan

/-- What recovery reports. -/
def Scan.recovered (scan : Scan C O) (rolledForward : Bool) : Recovered :=
  ⟨scan.tipHeight, scan.tipHash, scan.epoch, scan.viewBase, scan.participants, scan.residents,
    scan.frames, scan.blocks, restoreWindow scan.appliedFrames, scan.applied, scan.skipped,
    rolledForward⟩

/-- `recover_with_sink`: from a checkpoint to the tip of the journal. -/
def recover (manifest : Manifest) (code : Host C O) (host : HostState C) (store : Store) :
    Except RecoveryError (Recovered × Host C O × HostState C) × Store :=
  let records := store.journal.records
  let expected := Roots.insertAll (fun _ => none) manifest.roots
  let seeded := seedFloors manifest.height (blockDurableIds code) (moduleRoot code host) records
  let trailing := trailingWalHeight manifest.height records
  let claims := trailingClaims code host expected trailing seeded
  let floor := withClaims trailing claims seeded
  let start := Scan.start manifest code host (adopt code host floor expected)
  let finish (rolledForward : Bool) (scan : Scan C O) := do
    let reached ← verifyTip realize scan
    .ok (scan.recovered rolledForward, reached)
  match scanRecords crypto realize manifest.height floor records start with
  | .error e => (.error e, store)
  | .ok scan => match scan.pending with
    | none => (finish false scan, store)
    | some block =>
      match rollForward crypto realize claims store.journal.lastBlockPosition block scan store with
      | (.error e, store) => (.error e, store)
      | (.ok scan, store) => (finish true scan, store)

end Recover

end Ducktape.Recovery
