import Ducktape.Host.Replay
import Ducktape.Recovery.Writer

/-! # Three paths to one block

A batch runs as a block on three paths: the live drain, restart replay (`replayBatch`), and suffix
catch-up (`applyVerifiedSuffixFrame`), which re-applies the batches a peer serves. The drain applies a
frame once however often a batch repeats it; the other two apply every member that decodes. So the
three build the same ops, and leave the same host, if and only if no decodable member repeats an
earlier one (`batch_same_block_iff`). -/

namespace Ducktape.Recovery

open Lib List

/-! ## Suffix catch-up -/

/-- How a served frame landed at the peer. -/
inductive FrameDisposition
  | applied
  | rejected
  deriving DecidableEq

/-- `to_node_disposition`. -/
def FrameDisposition.toNodeDisposition : FrameDisposition → Disposition
  | .applied => .applied
  | .rejected => .rejected

/-- A batch a peer serves, with the outcome it sealed. -/
structure FinalizedFrame where
  height : Nat
  frame : Bytes
  disposition : FrameDisposition
  roots : List (ModuleId × StateRoot)
  rootHash : StateRoot
  deriving DecidableEq

/-- `Debug` of module roots. -/
def debugRoots (roots : List (ModuleId × StateRoot)) : String :=
  "[" ++ ", ".intercalate (roots.map fun entry =>
    "(\"" ++ entry.1 ++ "\", " ++ debugRoot entry.2 ++ ")") ++ "]"

/-- The ops catch-up builds from a batch's members: those that decode. -/
def suffixOps (crypto : FrameCrypto) (members : List Bytes) : List BlockOp :=
  decodableOps crypto members

section Suffix

variable {C O J : Type} (crypto : FrameCrypto) (realize : Realize C O)

/-- A re-applied batch must land as it was served. -/
def checkServed (served : FinalizedFrame) (outcome : Disposition) (code : Host C O)
    (host : HostState C) : Except String Unit :=
  let expected := served.disposition.toNodeDisposition
  let roots := moduleRoots code host
  let live := rootHash code host.committed
  if outcome ≠ expected then
    let landed := debugDisposition outcome
    let wanted := debugDisposition expected
    .error s!"served seal mismatch at height {served.height}: replay landed as {landed}, served as {wanted}"
  else if roots ≠ served.roots then
    let landed := debugRoots roots
    let wanted := debugRoots served.roots
    .error s!"served seal mismatch at height {served.height}: roots changed to {landed}, served {wanted}"
  else if live ≠ served.rootHash then
    let landed := hexLower live
    let wanted := hexLower served.rootHash
    .error s!"served seal mismatch at height {served.height}: root_hash {landed} != served {wanted}"
  else .ok ()

/-- `apply_verified_suffix_frame`: the dispatches of a served batch, re-applied as one block. -/
def applyVerifiedSuffixFrame (hook : CommitWitness J) (served : FinalizedFrame)
    (prepared : PreparedWork) (code : Host C O) (host : HostState C) (sink : J) :
    Except String (List DispatchRecord) × (Host C O × HostState C) × J :=
  match realize served.height code host with
  | .error e =>
    let reason := e.display
    (.error s!"code-swap realization at height {served.height}: {reason}", (code, host), sink)
  | .ok (code, host) =>
    match decodeBatch served.frame with
    | .error _ => ((checkServed served .rejected code host).map fun _ => [], (code, host), sink)
    | .ok members =>
      match submitBlockPrepared code hook ⟨served.height, served.height⟩
          (suffixOps crypto members) prepared host sink with
      | (.error (.fatal fault), host, sink) =>
        let reason := fault.display
        (.error s!"fatal host error applying suffix frame: {reason}", (code, host), sink)
      | (.error (.rejected _), host, sink) =>
        ((checkServed served .rejected code host).map fun _ => [], (code, host), sink)
      | (.ok outcome, host, sink) =>
        let landed := if outcome.intoTrace.1 then Disposition.applied else .rejected
        ((checkServed served landed code host).map fun _ => outcome.intoTrace.2, (code, host), sink)

end Suffix

/-! ## The ops of a batch -/

section Ops

variable (crypto : FrameCrypto)

/-- No member that decodes has the frame id of an earlier member. -/
def NoRepeats (members : List Bytes) : Prop :=
  members.Pairwise fun earlier later =>
    frameId crypto earlier = frameId crypto later → (decodeMember crypto later).toOption = none

/-- The drain drops ops, and adds none. -/
theorem decodeMembers_sublist (members : List Bytes) (seen : List FrameId) :
    (decodeMembers crypto members seen).ops.Sublist (decodableOps crypto members) := by
  induction members generalizing seen with
  | nil => exact List.Sublist.refl _
  | cons member members ih =>
    rw [decodeMembers]
    by_cases known : frameId crypto member ∈ seen
    · simp only [known, if_true, decodableOps, filterMap_cons]
      split
      · exact ih seen
      · exact (ih seen).cons _
    · simp only [known, decodableOps, filterMap_cons]
      cases decodeMember crypto member with
      | error e => exact ih _
      | ok op => exact (ih _).cons_cons _

/-- The drain keeps every op exactly if it knows no member that decodes, and none repeats another. -/
theorem decodeMembers_ops_iff (members : List Bytes) (seen : List FrameId) :
    (decodeMembers crypto members seen).ops = decodableOps crypto members ↔
      (∀ member ∈ members, frameId crypto member ∈ seen →
        (decodeMember crypto member).toOption = none) ∧ NoRepeats crypto members := by
  induction members generalizing seen with
  | nil => simp [decodeMembers, Members.ops, decodableOps, NoRepeats]
  | cons member members ih =>
    rw [NoRepeats, pairwise_cons, ← NoRepeats, decodeMembers]
    by_cases known : frameId crypto member ∈ seen
    · simp only [known, decodableOps, filterMap_cons, forall_mem_cons]
      cases decodeMember crypto member with
      | error e =>
        refine (ih seen).trans ⟨fun ⟨fails, apart⟩ => ⟨⟨fun _ => rfl, fails⟩, ?_, apart⟩,
          fun ⟨⟨_, fails⟩, _, apart⟩ => ⟨fails, apart⟩⟩
        exact fun later mem same => fails later mem (same ▸ known)
      | ok op =>
        -- the drain drops this op, so it ends up short
        refine ⟨fun same => ?_, fun ⟨⟨fails, _⟩, _⟩ => ?_⟩
        · have short := (decodeMembers_sublist crypto members seen).length_le
          have long : (decodeMembers crypto members seen).ops.length
              = (decodableOps crypto members).length + 1 := congrArg length same
          omega
        · exact absurd (fails trivial) (by simp [Except.toOption])
    · simp only [known, decodableOps, filterMap_cons, forall_mem_cons,
        false_implies, true_and]
      have tail := ih (frameId crypto member :: seen)
      have split : (∀ later ∈ members, frameId crypto later ∈ frameId crypto member :: seen →
            (decodeMember crypto later).toOption = none) ↔
          (∀ later ∈ members, frameId crypto later ∈ seen →
            (decodeMember crypto later).toOption = none) ∧
          ∀ later ∈ members, frameId crypto member = frameId crypto later →
            (decodeMember crypto later).toOption = none := by
        grind
      rw [split, and_assoc] at tail
      rw [← tail]
      cases decodeMember crypto member <;> simp [Members.ops, Except.toOption, decodableOps]

end Ops

/-! ## One block, three paths -/

section Paths

variable {C O J : Type} {L : Lane C O J} {height : Nat} {frame : Bytes} {prepared : PreparedWork}
  {node node' : OrderedNode C O J} {delivered : Delivered} {members : List Bytes}
  {ended : Except SubmitError BatchOutcome}

/-- How a block the host ran is sealed. -/
def landedAs : Except SubmitError BatchOutcome → FrameDisposition
  | .ok outcome => if outcome.disposition = .applied then .applied else .rejected
  | .error _ => .rejected

/-- A block that did not fault. -/
def Settles (ended : Except SubmitError BatchOutcome) : Prop :=
  ∀ fault, ended ≠ .error (.fatal fault)

/-- The block the lane hands to its host. -/
def submission (L : Lane C O J) (height : Nat) (members : List Bytes) (prepared : PreparedWork)
    (node : OrderedNode C O J) : Except SubmitError BatchOutcome × HostState C × J :=
  submitBlockPrepared node.code (sinkWitness L.sink) ⟨height, node.timePolicy.stamp height⟩
    (decodeMembers L.crypto members []).ops prepared node.host node.sink

/-- Every path reads the block's disposition off its outcome alike. -/
theorem disposition_intoTrace (outcome : BatchOutcome) :
    (if outcome.intoTrace.1 then Disposition.applied else .rejected)
      = (landedAs (.ok outcome)).toNodeDisposition ∧
    outcome.disposition = (landedAs (.ok outcome)).toNodeDisposition := by
  have same : outcome.intoTrace.1
      = (outcome.members.any (fun m => m.dispatches?.isSome) || outcome.ranInternalWork) := by
    rw [Bool.or_comm]
    simp only [BatchOutcome.intoTrace]
    rw [Bool.eq_iff_iff]
    simp [Option.isSome_iff_ne_none]
  rw [same]
  simp only [landedAs, BatchOutcome.disposition]
  split <;> exact ⟨rfl, rfl⟩

/-- A block the lane seals: its host submitted it without a fault, and the seal says how it landed. -/
theorem applyBatch_settled (decodes : decodeBatch frame = .ok members)
    (ran : applyBatch L height frame prepared node = (delivered, node'))
    (settled : delivered = .sealed ∨ delivered = .barrier) :
    ∃ ended j j', submission L height members prepared node = (ended, node'.host, j) ∧
      Settles ended ∧ node'.code = node.code ∧
      L.sink.sealBlock (node'.sealNow height (landedAs ended).toNodeDisposition) j'
        = (.ok (), node'.sink) := by
  have sealing : ∀ {batch disposition delivered} {before after : OrderedNode C O J},
      settleBlock L height batch disposition before = (delivered, after) →
      delivered = .sealed ∨ delivered = .barrier →
      delivered = .sealed ∧ after.code = before.code ∧ after.host = before.host ∧
        L.sink.sealBlock (after.sealNow height disposition) before.sink = (.ok (), after.sink) := by
    intro batch disposition delivered before after ran settled
    simp only [settleBlock] at ran
    split at ran
    · cases ran
      rcases settled with bad | bad <;> cases bad
    · rename_i sunk
      cases ran
      exact ⟨rfl, rfl, rfl, sunk⟩
  simp only [applyBatch, decodes] at ran
  rw [← submission] at ran
  split at ran
  · cases ran
    rcases settled with bad | bad <;> cases bad
  · rename_i e host j submitted
    obtain ⟨-, code, same, sunk⟩ := sealing ran settled
    exact ⟨.error (.rejected e), j, _, by rw [submitted, same]; rfl, fun _ bad => (by cases bad),
      code, sunk⟩
  · rename_i outcome host j submitted
    generalize settles : settleBlock L _ _ _ _ = result at ran
    obtain ⟨d, after⟩ := result
    have left := recordOutcome_applied height (decodeMembers L.crypto members []) outcome
      { node with host := host, sink := j }
    simp only [OrderedNode.applied, Prod.mk.injEq] at left
    have sealed : after = node' ∧ (d = .sealed ∨ d = .barrier) := by
      cases d <;> simp only [raiseBarrier] at ran <;> obtain ⟨rfl, rfl⟩ := ran <;>
        simp_all
    obtain ⟨rfl, kind⟩ := sealed
    obtain ⟨-, code, same, sunk⟩ := sealing settles kind
    rw [(disposition_intoTrace outcome).2] at sunk
    exact ⟨.ok outcome, j, _, by rw [submitted, same, left.2.1], fun _ bad => (by cases bad),
      code.trans left.1, sunk⟩

/-- A witness replay may hold: none, or the one the live block left. -/
def LiveWitness (ended : Except SubmitError BatchOutcome) (witness : Option Witness) : Prop :=
  ∀ w, witness = some w → ∃ outcome, ended = .ok outcome ∧ outcome.witness = w

variable {H : Host C O} {hook : CommitWitness J} {ctx : BlockContext} {ops : List BlockOp}
  {host host' : HostState C} {sink sink' : J}

/-- A live block replays from where it ran, with or without its witness. -/
theorem submitBlockReplaying_live {J' : Type}
    (live : submitBlockPrepared H hook ctx ops prepared host sink = (ended, host', sink'))
    (settles : Settles ended) {witness : Option Witness} (held : LiveWitness ended witness)
    {hook' : CommitWitness J'} {sink₁ : J'}
    (accepts : ∀ w, (hook'.record ctx.height w sink₁).1 = .ok ()) :
    ∃ sink₂, submitBlockReplaying H hook' ctx ops prepared witness host sink₁
      = (ended, host', sink₂) := by
  cases witness with
  | none => exact applyBlock_hook live settles accepts
  | some w =>
    obtain ⟨outcome, rfl, rfl⟩ := held w rfl
    obtain ⟨tables, -, s, post, t, log, -, -, block⟩ := applyBlock_settles live
    have replayed : Ducktape.applyBlock H hook' ctx ops prepared (.journaled outcome.witness ∅)
        .batch none host sink₁ = _ :=
      block.replays hook' sink₁ block.budgetAgrees_empty (spares_empty ∅ _) (fun _ _ _ => rfl)
        (fun _ _ _ => rfl) (accepts _)
    -- nothing is stood in for, so every module takes the block's post-state
    have rejoined : rejoin (∅ ∪ ∅) host host' = host' := rfl
    rw [rejoined, block.whole] at replayed
    exact ⟨_, replayed⟩

/-- A block that was live on the lane: it realized the height's code on `code` and `host`, and settled
the batch. -/
structure LiveRun (L : Lane C O J) (height : Nat) (frame : Bytes) (prepared : PreparedWork)
    (code : Host C O) (host : HostState C) (node node' : OrderedNode C O J) : Prop where
  realized : L.realize height code host = .ok (node.code, node.host)
  time : node.timePolicy = .heightIsTime
  ran : ∃ delivered, applyBatch L height frame prepared node = (delivered, node') ∧
    (delivered = .sealed ∨ delivered = .barrier)

/-- The three paths run the batch as the same block: they build the same ops, and from where a block
was live they leave its host and seal it alike. -/
structure SameBlock (L : Lane C O J) (height : Nat) (frame : Bytes) (members : List Bytes) : Prop where
  replayOps_eq : replayOps L.crypto members = (decodeMembers L.crypto members []).ops
  suffixOps_eq : suffixOps L.crypto members = (decodeMembers L.crypto members []).ops
  /-- Restart replay, with or without the block's witness. -/
  replays : ∀ {prepared code host node node'}, LiveRun L height frame prepared code host node node' →
    ∀ witness, LiveWitness (submission L height members prepared node).1 witness →
    ∀ (J' : Type) (hook : CommitWitness J') (sink : J'),
      (∀ w, (hook.record height w sink).1 = .ok ()) →
      ∃ dispatches sink',
        replayBatch L.crypto L.realize hook height frame prepared witness none code host sink
          = (.ok ⟨(landedAs (submission L height members prepared node).1).toNodeDisposition, dispatches,
              node'.code, node'.host⟩, sink')
  /-- Catch-up, served the seal of the live block. -/
  catches : ∀ {prepared code host node node'}, LiveRun L height frame prepared code host node node' →
    ∀ (J' : Type) (hook : CommitWitness J') (sink : J'),
      (∀ w, (hook.record height w sink).1 = .ok ()) →
      ∃ dispatches sink',
        applyVerifiedSuffixFrame L.crypto L.realize hook
            ⟨height, frame, landedAs (submission L height members prepared node).1,
              moduleRoots node'.code node'.host, node'.rootHash⟩ prepared code host sink
          = (.ok dispatches, (node'.code, node'.host), sink')

/-- The block of a live run, as the other paths submit it. -/
theorem LiveRun.submitted {code : Host C O} (run : LiveRun L height frame prepared code host node node')
    (decodes : decodeBatch frame = .ok members)
    (same : decodableOps L.crypto members = (decodeMembers L.crypto members []).ops) :
    ∃ j, submitBlockPrepared node'.code (sinkWitness L.sink) ⟨height, height⟩
        (decodableOps L.crypto members) prepared node.host node.sink
      = ((submission L height members prepared node).1, node'.host, j) ∧
      Settles (submission L height members prepared node).1 ∧
      L.realize height code host = .ok (node'.code, node.host) := by
  obtain ⟨delivered, ran, settled⟩ := run.ran
  obtain ⟨ended, j, -, submitted, settles, unchanged, -⟩ := applyBatch_settled decodes ran settled
  refine ⟨j, ?_, by rw [submitted]; exact settles, by rw [unchanged]; exact run.realized⟩
  have stamped : node.timePolicy.stamp height = height := by rw [run.time]; rfl
  rw [submitted, unchanged, same, ← submitted, submission, stamped]

section Ends

variable {crypto : FrameCrypto} {realize : Realize C O} {code : Host C O} {before : HostState C}

/-- Restart replay of a block that ends without a fault. -/
theorem replayBatch_of_ended {witness : Option Witness} (realized : realize height code host = .ok (H, before))
    (decodes : decodeBatch frame = .ok members) (settles : Settles ended)
    (ran : submitBlockReplaying H hook ⟨height, height⟩ (decodableOps crypto members) prepared witness
      before sink = (ended, host', sink')) :
    ∃ dispatches, replayBatch crypto realize hook height frame prepared witness none code host sink
      = (.ok ⟨(landedAs ended).toNodeDisposition, dispatches, H, host'⟩, sink') := by
  simp only [replayBatch, realized, decodes, replayOps, ran]
  match ended with
  | .ok outcome =>
    rw [← (disposition_intoTrace outcome).1]
    exact ⟨_, rfl⟩
  | .error (.rejected e) => exact ⟨_, rfl⟩
  | .error (.fatal fault) => exact absurd rfl (settles fault)

/-- Catch-up over a block that ends without a fault, served that end. -/
theorem applyVerifiedSuffixFrame_of_ended (realized : realize height code host = .ok (H, before))
    (decodes : decodeBatch frame = .ok members) (settles : Settles ended)
    (ran : submitBlockPrepared H hook ⟨height, height⟩ (decodableOps crypto members) prepared before sink
      = (ended, host', sink')) :
    ∃ dispatches, applyVerifiedSuffixFrame crypto realize hook
        ⟨height, frame, landedAs ended, moduleRoots H host', rootHash H host'.committed⟩ prepared code
        host sink = (.ok dispatches, (H, host'), sink') := by
  simp only [applyVerifiedSuffixFrame, realized, decodes, suffixOps, ran]
  match ended with
  | .ok outcome =>
    exact ⟨outcome.intoTrace.2, by simp [checkServed, (disposition_intoTrace outcome).1, Except.map]⟩
  | .error (.rejected e) =>
    exact ⟨[], by simp [checkServed, landedAs, FrameDisposition.toNodeDisposition, Except.map]⟩
  | .error (.fatal fault) => exact absurd rfl (settles fault)

end Ends

variable (L height frame) in
/-- **The three paths run a batch as the same block if and only if no decodable member repeats an
earlier one.** -/
theorem batch_same_block_iff (decodes : decodeBatch frame = .ok members) :
    SameBlock L height frame members ↔ NoRepeats L.crypto members := by
  have ops := decodeMembers_ops_iff L.crypto members []
  have unknown : ∀ member ∈ members, frameId L.crypto member ∈ [] →
      (decodeMember L.crypto member).toOption = none := fun _ _ mem => by cases mem
  refine ⟨fun block => (ops.mp block.replayOps_eq.symm).2, fun apart => ?_⟩
  have same := (ops.mpr ⟨unknown, apart⟩).symm
  refine ⟨same, same, ?_, ?_⟩
  · intro prepared code host node node' run witness held J' hook sink accepts
    obtain ⟨j, live, settles, realized⟩ := run.submitted decodes same
    obtain ⟨sink₂, replayed⟩ := submitBlockReplaying_live live settles held accepts
    obtain ⟨dispatches, ended⟩ := replayBatch_of_ended realized decodes settles replayed
    exact ⟨dispatches, sink₂, ended⟩
  · intro prepared code host node node' run J' hook sink accepts
    obtain ⟨j, live, settles, realized⟩ := run.submitted decodes same
    obtain ⟨sink₂, caught⟩ := applyBlock_hook live settles accepts
    obtain ⟨dispatches, ended⟩ := applyVerifiedSuffixFrame_of_ended realized decodes settles caught
    exact ⟨dispatches, sink₂, ended⟩

end Paths

/-- A signed count at the tally `target`. -/
def countFrame (target : ModuleId) : Bytes := framePreimageWithBlob .ed25519 [] 0 ⟨target, []⟩ none

/-- Two counts, with a malformed member before and after them. -/
def mixedMembers : List Bytes := [[], countFrame "left", countFrame "right", []]

theorem batch_same_block_iff_tally :
    SameBlock (journaledLane tallyCrypto tallyRealize) 1 (encodeBatch mixedMembers) mixedMembers ∧
    LiveRun (journaledLane tallyCrypto tallyRealize) 1 (encodeBatch mixedMembers) default tallyHost
      tallyStart tallyNode
      (applyBatch (journaledLane tallyCrypto tallyRealize) 1 (encodeBatch mixedMembers) default
        tallyNode).2 ∧
    (applyBatch (journaledLane tallyCrypto tallyRealize) 1 (encodeBatch mixedMembers) default
      tallyNode).2.host.committed "left" = 1 := by
  have decodes : decodeBatch (encodeBatch mixedMembers) = .ok mixedMembers := by decide +kernel
  refine ⟨(batch_same_block_iff (journaledLane tallyCrypto tallyRealize) 1 (encodeBatch mixedMembers)
    decodes).mpr ?_, ⟨rfl, rfl, .sealed, rfl, .inl rfl⟩, by decide +kernel⟩
  unfold NoRepeats
  decide +kernel

/-- A batch that repeats a signed frame. -/
def repeatedMembers : List Bytes := [countFrame "left", countFrame "left"]

theorem batch_repeated_differs :
    decodeBatch (encodeBatch repeatedMembers) = .ok repeatedMembers ∧
    (decodeMembers tallyCrypto repeatedMembers []).ops = [countOp "left"] ∧
    replayOps tallyCrypto repeatedMembers = [countOp "left", countOp "left"] ∧
    suffixOps tallyCrypto repeatedMembers = [countOp "left", countOp "left"] ∧
    (applyBatch (journaledLane tallyCrypto tallyRealize) 1 (encodeBatch repeatedMembers) default
      tallyNode).2.host.committed "left" = 1 ∧
    ((replayBatch tallyCrypto tallyRealize noWitness 1 (encodeBatch repeatedMembers) default none none
      tallyHost tallyStart ()).1.toOption.map fun replayed => replayed.host.committed "left") = some 2 ∧
    (applyVerifiedSuffixFrame tallyCrypto tallyRealize noWitness
      ⟨1, encodeBatch repeatedMembers, .applied, [], []⟩ default tallyHost tallyStart
      ()).2.1.2.committed "left" = 2 := by
  decide +kernel

end Ducktape.Recovery
