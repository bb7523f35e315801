import Ducktape.Lib.Weight
import Ducktape.Node.Frames

/-! # Custody

The frames a node has accepted and not seen resolved, with the counters that bound them and the queue
of those not proposed yet. `accept` is the door with its checks and caps, `release` the one way out,
`takeOneBatch` peels the next proposal off the queue and `carry` queues everything anew at a cutover.

`Sound` is what every operation keeps: the counters are the sums over what is held, and the caps hold.
`Queued` says the queue names each held frame at most once; a release keeps it only for a frame that is
not queued (`Queued.release`). -/

namespace Ducktape

open Lib Std List

/-! ## Bounds -/

def maxBatchBytes : Nat := maxFrameBytes
def maxBatchMembers : Nat := 1024
def maxCustodyFrames : Nat := 8 * maxBatchMembers
def maxCustodyBytes : Nat := 32 * 2 ^ 20
def maxCustodyFramesPerOrigin : Nat := 2 * maxBatchMembers
/-- How many batches one flush proposes at most. -/
def maxFlushBatchesPerTurn : Nat := 8

/-- The refusal at a mempool bound. -/
def custodyRefused (reason : String) (bound : Nat) : NodeError :=
  .host (.module s!"{reason}: this node's op mempool is at its {bound} bound — retry shortly")

/-- The groups of a varint, `groups` more at most. -/
def lenGroups : Nat → Nat → Nat
  | 0, _ => 1
  | groups + 1, n => if n / 128 = 0 then 1 else 1 + lenGroups groups (n / 128)

/-- The encoded length of a varint. -/
def varintLen (n : Nat) : Nat := lenGroups 9 n

/-! ## Operations -/

/-- The locally accepted frames that have not resolved yet. -/
structure Custody where
  /-- Each frame with its sequence number. -/
  outstanding : ExtTreeMap FrameId (Nat × Bytes)
  custodyBytes : Nat
  custodyPerOrigin : ExtTreeMap Bytes Nat
  /-- The frames not proposed yet, oldest first. -/
  pendingBatch : List (FrameId × Bytes)

namespace Custody

/-- Nobody's frames. -/
def empty : Custody := ⟨∅, 0, ∅, []⟩

variable (custody : Custody)

/-- One more frame in custody, at the end of the queue. -/
def hold (id : FrameId) (origin : Bytes) (seq : Nat) (frame : Bytes) : Custody where
  outstanding := custody.outstanding.insert id (seq, frame)
  custodyBytes := custody.custodyBytes + frame.length
  custodyPerOrigin :=
    custody.custodyPerOrigin.insert origin (custody.custodyPerOrigin[origin]?.getD 0 + 1)
  pendingBatch := custody.pendingBatch ++ [(id, frame)]

/-- The mempool caps. -/
def checkCaps (origin frame : Bytes) : Except NodeError Unit :=
  if custody.outstanding.size ≥ maxCustodyFrames then
    .error (custodyRefused "mempool_frames_full" maxCustodyFrames)
  else if custody.custodyBytes + frame.length > maxCustodyBytes then
    .error (custodyRefused "mempool_bytes_full" maxCustodyBytes)
  else if custody.custodyPerOrigin[origin]?.getD 0 ≥ maxCustodyFramesPerOrigin then
    .error (custodyRefused "mempool_origin_full" maxCustodyFramesPerOrigin)
  else .ok ()

/-- Take a checked frame into custody; one already held is acknowledged again. -/
def admitFrame (id : FrameId) (frame : Bytes) : Except NodeError (FrameId × Custody) :=
  match frameOriginSeq frame with
  | none => .error frameParseError
  | some (origin, seq) =>
    if id ∈ custody.outstanding then .ok (id, custody)
    else match custody.checkCaps origin frame with
      | .error e => .error e
      | .ok () => .ok (id, custody.hold id origin seq frame)

/-- `submit_frame`: check a signed frame and take it into custody. -/
def accept (crypto : FrameCrypto) (frame : Bytes) : Except NodeError (FrameId × Custody) :=
  let len := frame.length
  if len > maxFrameBytes then
    .error (.host (.module
      s!"op frame is {len} bytes, over the {maxFrameBytes}-byte cap — split the payload"))
  else match decodeMember crypto frame with
    | .error e => .error e
    | .ok _ => custody.admitFrame (frameId crypto frame) frame

/-- `release_custody`: one member resolved. -/
def release (id : FrameId) : Custody :=
  match custody.outstanding[id]? with
  | none => custody
  | some (_, frame) =>
    let custody := { custody with
      outstanding := custody.outstanding.erase id
      custodyBytes := custody.custodyBytes - frame.length }
    match frameOriginSeq frame with
    | none => custody
    | some (origin, _) =>
      match custody.custodyPerOrigin[origin]? with
      | none => custody
      | some held =>
        { custody with
          custodyPerOrigin := if held - 1 = 0 then custody.custodyPerOrigin.erase origin
            else custody.custodyPerOrigin.insert origin (held - 1) }

/-- How many queued frames fit one batch, given the size and number of those counted already. The
first one always does. -/
def fitting : List (FrameId × Bytes) → Nat → Nat → Nat
  | [], _, count => count
  | (_, frame) :: rest, membersBytes, count =>
    let contrib := varintLen frame.length + frame.length
    let projected := varintLen (count + 1) + membersBytes + contrib
    if count > 0 ∧ (projected > maxBatchBytes ∨ count = maxBatchMembers) then count
    else fitting rest (membersBytes + contrib) (count + 1)

/-- `take_one_batch`: peel the longest prefix of the queue that fits one batch. -/
def takeOneBatch : List Bytes × Custody :=
  let count := fitting custody.pendingBatch 0 0
  ((custody.pendingBatch.take count).map (·.2),
    { custody with pendingBatch := custody.pendingBatch.drop count })

/-- An iteration order of a hash map: any reordering of its entries. -/
structure Reordering (α : Type) where
  run : List α → List α
  perm : ∀ l, (run l).Perm l

/-- The boundary carry: everything in custody, by sequence number, is queued anew. What is held is
taken out and put back, so it stays. -/
def carry (order : Reordering (FrameId × Nat × Bytes)) : Custody :=
  let carried := (order.run custody.outstanding.toList).mergeSort fun a b => a.2.1 ≤ b.2.1
  { custody with pendingBatch := carried.map fun (id, _, frame) => (id, frame) }

end Custody

namespace Custody

/-! ## Counters and caps -/

/-- How many held frames are an origin's. -/
def heldBy (origin : Bytes) : ExtTreeMap FrameId (Nat × Bytes) → Nat :=
  weight fun _ entry => if (frameOriginSeq entry.2).map Prod.fst = some origin then 1 else 0

/-- The bytes held. -/
def heldBytes : ExtTreeMap FrameId (Nat × Bytes) → Nat := weight fun _ entry => entry.2.length

/-- Every frame is held under its own id and parses, the counters are the sums over what is held, and
the caps hold. -/
structure Sound (crypto : FrameCrypto) (custody : Custody) : Prop where
  named : ∀ id seq frame, custody.outstanding[id]? = some (seq, frame) →
    frameId crypto frame = id ∧ ∃ origin, frameOriginSeq frame = some (origin, seq)
  bytes : custody.custodyBytes = heldBytes custody.outstanding
  origins : ∀ origin, custody.custodyPerOrigin[origin]? =
    if heldBy origin custody.outstanding = 0 then none else some (heldBy origin custody.outstanding)
  frames_le : custody.outstanding.size ≤ maxCustodyFrames
  bytes_le : heldBytes custody.outstanding ≤ maxCustodyBytes
  origin_le : ∀ origin, heldBy origin custody.outstanding ≤ maxCustodyFramesPerOrigin

theorem Sound.empty (crypto : FrameCrypto) : Sound crypto .empty where
  named := by simp [Custody.empty]
  bytes := by simp [Custody.empty, heldBytes]
  origins := by simp [Custody.empty, heldBy]
  frames_le := by simp [Custody.empty]
  bytes_le := by simp [Custody.empty, heldBytes]
  origin_le := by simp [Custody.empty, heldBy]

section ops

variable {crypto : FrameCrypto} {custody : Custody} {id : FrameId} {frame origin : Bytes} {seq : Nat}

theorem Sound.origin_getD (sound : Sound crypto custody) (origin : Bytes) :
    custody.custodyPerOrigin[origin]?.getD 0 = heldBy origin custody.outstanding := by
  rw [sound.origins origin]
  split <;> simp [*]

theorem checkCaps_eq_ok (ok : custody.checkCaps origin frame = .ok ()) :
    custody.outstanding.size < maxCustodyFrames ∧
      custody.custodyBytes + frame.length ≤ maxCustodyBytes ∧
      custody.custodyPerOrigin[origin]?.getD 0 < maxCustodyFramesPerOrigin := by
  unfold checkCaps at ok
  split at ok
  · cases ok
  split at ok
  · cases ok
  · split at ok
    · cases ok
    · omega

/-- What accepting a frame did: it was held already, or it is held now. -/
theorem accept_cases {custody' : Custody} (ok : custody.accept crypto frame = .ok (id, custody')) :
    id = frameId crypto frame ∧ ((id ∈ custody.outstanding ∧ custody' = custody) ∨
      ∃ origin seq, id ∉ custody.outstanding ∧ frameOriginSeq frame = some (origin, seq) ∧
        custody.checkCaps origin frame = .ok () ∧ custody' = custody.hold id origin seq frame) := by
  simp only [accept] at ok
  split at ok
  · cases ok
  split at ok
  · cases ok
  unfold admitFrame at ok
  split at ok
  · cases ok
  rename_i origin seq coordinates
  split at ok
  · rename_i held
    cases ok
    exact ⟨rfl, .inl ⟨held, rfl⟩⟩
  · rename_i fresh
    split at ok
    · cases ok
    · rename_i caps
      cases ok
      exact ⟨rfl, .inr ⟨origin, seq, fresh, coordinates, caps, rfl⟩⟩

/-- A frame under the caps is held soundly. -/
theorem Sound.hold (sound : Sound crypto custody) (fresh : frameId crypto frame ∉ custody.outstanding)
    (coordinates : frameOriginSeq frame = some (origin, seq))
    (caps : custody.checkCaps origin frame = .ok ()) :
    Sound crypto (custody.hold (frameId crypto frame) origin seq frame) := by
  obtain ⟨frames, bytes, quota⟩ := checkCaps_eq_ok caps
  rw [sound.origin_getD] at quota
  rw [sound.bytes] at bytes
  have grown : heldBytes (custody.hold (frameId crypto frame) origin seq frame).outstanding
      = heldBytes custody.outstanding + frame.length := weight_insert _ fresh (seq, frame)
  have counted : ∀ other, heldBy other (custody.hold (frameId crypto frame) origin seq frame).outstanding
      = heldBy other custody.outstanding + if origin = other then 1 else 0 := by
    intro other
    unfold heldBy Custody.hold
    rw [weight_insert _ fresh]
    simp [coordinates]
  refine ⟨fun id seq' frame' found => ?_, ?_, fun other => ?_, ?_, ?_, fun other => ?_⟩
  · rw [Custody.hold, ExtTreeMap.getElem?_insert] at found
    split at found
    · rename_i same
      obtain rfl := Std.compare_eq_iff_eq.mp same
      cases found
      exact ⟨rfl, origin, coordinates⟩
    · exact sound.named id seq' frame' found
  · rw [grown, ← sound.bytes]
    rfl
  · rw [counted other, Custody.hold, ExtTreeMap.getElem?_insert, sound.origin_getD]
    by_cases same : origin = other
    · subst same
      simp
    · simpa [same] using sound.origins other
  · rw [Custody.hold, ExtTreeMap.size_insert, if_neg (by simpa using fresh)]
    omega
  · omega
  · rw [counted other]
    have cap := sound.origin_le other
    split
    · rename_i same
      subst same
      omega
    · omega

/-- Accepting keeps custody sound. -/
theorem Sound.accept {custody' : Custody} (sound : Sound crypto custody)
    (ok : custody.accept crypto frame = .ok (id, custody')) : Sound crypto custody' := by
  obtain ⟨rfl, ⟨-, rfl⟩ | ⟨origin, seq, fresh, coordinates, caps, rfl⟩⟩ := accept_cases ok
  · exact sound
  · exact sound.hold fresh coordinates caps

/-- What releasing a held frame leaves: the sums go down by the frame. -/
theorem Sound.release_of_held (sound : Sound crypto custody)
    (found : custody.outstanding[id]? = some (seq, frame)) :
    Sound crypto (custody.release id) ∧
      (custody.release id).outstanding = custody.outstanding.erase id := by
  obtain ⟨-, origin, coordinates⟩ := sound.named id seq frame found
  have shrunk : heldBytes custody.outstanding
      = heldBytes (custody.outstanding.erase id) + frame.length := weight_erase _ found
  have counted : ∀ other, heldBy other custody.outstanding
      = heldBy other (custody.outstanding.erase id) + if origin = other then 1 else 0 := by
    intro other
    unfold heldBy
    rw [weight_erase _ found]
    simp [coordinates]
  have positive : heldBy origin custody.outstanding ≠ 0 := by simp [counted origin]
  have quota := sound.origins origin
  rw [if_neg positive] at quota
  have released : custody.release id =
      { custody with
        outstanding := custody.outstanding.erase id
        custodyBytes := custody.custodyBytes - frame.length
        custodyPerOrigin := if heldBy origin custody.outstanding - 1 = 0
          then custody.custodyPerOrigin.erase origin
          else custody.custodyPerOrigin.insert origin (heldBy origin custody.outstanding - 1) } := by
    simp only [release, found, coordinates, quota]
  have sizes : (custody.outstanding.erase id).size ≤ custody.outstanding.size :=
    ExtTreeMap.size_erase_le
  have cap := sound.frames_le
  have room := sound.bytes_le
  rw [released]
  refine ⟨⟨fun other seq' frame' kept => ?_, ?_, fun other => ?_, ?_, ?_, fun other => ?_⟩, rfl⟩
  · rw [ExtTreeMap.getElem?_erase] at kept
    split at kept
    · cases kept
    · exact sound.named other seq' frame' kept
  · have bytes := sound.bytes
    simp only
    omega
  · have before := sound.origins other
    rw [counted other] at before
    have left : heldBy origin custody.outstanding - 1
        = heldBy origin (custody.outstanding.erase id) := by simp [counted origin]
    rw [left]
    by_cases same : origin = other
    · subst same
      by_cases none_left : heldBy origin (custody.outstanding.erase id) = 0 <;> simp [none_left]
    by_cases none_left : heldBy origin (custody.outstanding.erase id) = 0
    · simp only [none_left, if_true]
      rw [ExtTreeMap.getElem?_erase]
      simpa [same] using before
    · simp only [none_left, if_false]
      rw [ExtTreeMap.getElem?_insert]
      simpa [same] using before
  · simp only
    omega
  · simp only
    omega
  · have quota := sound.origin_le other
    rw [counted other] at quota
    simp only
    omega

/-- Releasing a frame that is not held does nothing. -/
theorem release_of_absent (absent : custody.outstanding[id]? = none) : custody.release id = custody := by
  rw [release, absent]

/-- Releasing keeps custody sound. -/
theorem Sound.release (sound : Sound crypto custody) (id : FrameId) :
    Sound crypto (custody.release id) := by
  cases found : custody.outstanding[id]? with
  | none =>
    rw [release_of_absent found]
    exact sound
  | some entry => exact (sound.release_of_held found).1

/-- A release takes out its frame and no other. -/
theorem Sound.release_getElem? (sound : Sound crypto custody) (id other : FrameId) :
    (custody.release id).outstanding[other]?
      = if id = other then none else custody.outstanding[other]? := by
  cases found : custody.outstanding[id]? with
  | none =>
    rw [release_of_absent found]
    split
    · rename_i same
      rw [← same, found]
    · rfl
  | some entry =>
    rw [(sound.release_of_held found).2, ExtTreeMap.getElem?_erase]
    simp only [Std.compare_eq_iff_eq]

@[simp] theorem release_pendingBatch (id : FrameId) :
    (custody.release id).pendingBatch = custody.pendingBatch := by
  unfold Custody.release
  split
  · rfl
  simp only
  split
  · rfl
  · split <;> rfl

/-- Releasing several frames keeps custody sound and takes out those frames. -/
theorem Sound.releases (sound : Sound crypto custody) (ids : List FrameId) :
    Sound crypto (ids.foldl Custody.release custody) ∧
      ∀ other, (ids.foldl Custody.release custody).outstanding[other]?
        = if other ∈ ids then none else custody.outstanding[other]? := by
  induction ids generalizing custody with
  | nil => exact ⟨sound, fun other => by simp⟩
  | cons id ids ih =>
    obtain ⟨kept, lookup⟩ := ih (sound.release id)
    refine ⟨kept, fun other => ?_⟩
    rw [foldl_cons, lookup other, sound.release_getElem? id other]
    by_cases later : other ∈ ids
    · simp [later]
    · simp [later, eq_comm]

@[simp] theorem releases_pendingBatch (ids : List FrameId) :
    (ids.foldl Custody.release custody).pendingBatch = custody.pendingBatch := by
  induction ids generalizing custody with
  | nil => rfl
  | cons id ids ih => rw [foldl_cons, ih, release_pendingBatch]

/-! ## The queue -/

/-- The ids of the queued frames. -/
def queue (custody : Custody) : List FrameId := custody.pendingBatch.map Prod.fst

/-- The queue names distinct frames, each of them held. -/
structure Queued (custody : Custody) : Prop where
  distinct : custody.queue.Nodup
  held : ∀ id frame, (id, frame) ∈ custody.pendingBatch →
    ∃ seq, custody.outstanding[id]? = some (seq, frame)

theorem Queued.empty : Queued .empty := ⟨nodup_nil, nofun⟩

/-- Accepting keeps the queue in order. -/
theorem Queued.accept {custody' : Custody} (queued : Queued custody)
    (ok : custody.accept crypto frame = .ok (id, custody')) : Queued custody' := by
  obtain ⟨rfl, ⟨-, rfl⟩ | ⟨origin, seq, fresh, -, -, rfl⟩⟩ := accept_cases ok
  · exact queued
  have absent : frameId crypto frame ∉ custody.queue := by
    intro mem
    obtain ⟨⟨_, frame'⟩, mem, rfl⟩ := mem_map.mp mem
    obtain ⟨seq', found⟩ := queued.held _ frame' mem
    exact fresh (ExtTreeMap.mem_iff_isSome_getElem?.mpr (by simp [found]))
  constructor
  · simp only [queue, Custody.hold, map_append, map_cons, map_nil]
    refine nodup_append.mpr ⟨queued.distinct, nodup_singleton _, ?_⟩
    rintro other mem _ named rfl
    rw [mem_singleton] at named
    exact absent (named ▸ mem)
  · intro other frame' mem
    simp only [Custody.hold, mem_append, mem_singleton] at mem
    rw [Custody.hold, ExtTreeMap.getElem?_insert]
    rcases mem with mem | ⟨rfl, rfl⟩
    · obtain ⟨seq', found⟩ := queued.held other frame' mem
      have apart : frameId crypto frame ≠ other := by
        rintro rfl
        exact absent (mem_map_of_mem mem)
      exact ⟨seq', by simp [apart, found]⟩
    · exact ⟨seq, by simp⟩

/-- Releasing a frame that is not queued keeps the queue in order. -/
theorem Queued.release (queued : Queued custody) (sound : Sound crypto custody)
    (absent : id ∉ custody.queue) : Queued (custody.release id) := by
  refine ⟨by simpa [queue] using queued.distinct, fun other frame mem => ?_⟩
  rw [release_pendingBatch] at mem
  have apart : id ≠ other := by
    rintro rfl
    exact absent (mem_map_of_mem mem)
  rw [sound.release_getElem?, if_neg apart]
  exact queued.held other frame mem

/-- Releasing frames that are not queued keeps the queue in order. -/
theorem Queued.releases (queued : Queued custody) (sound : Sound crypto custody) {ids : List FrameId}
    (absent : ∀ id ∈ ids, id ∉ custody.queue) : Queued (ids.foldl Custody.release custody) := by
  induction ids generalizing custody with
  | nil => exact queued
  | cons id ids ih =>
    refine ih (queued.release sound (absent id (mem_cons_self ..))) (sound.release id) ?_
    intro other mem
    simpa [queue] using absent other (mem_cons_of_mem _ mem)

/-- The queue may get shorter. -/
theorem Queued.sublist (queued : Queued custody) {rest : List (FrameId × Bytes)}
    (shorter : rest.Sublist custody.pendingBatch) : Queued { custody with pendingBatch := rest } :=
  ⟨queued.distinct.sublist (shorter.map _), fun id frame mem => queued.held id frame (shorter.subset mem)⟩

/-- Soundness does not look at the queue. -/
theorem Sound.requeue (sound : Sound crypto custody) (queue : List (FrameId × Bytes)) :
    Sound crypto { custody with pendingBatch := queue } :=
  ⟨sound.named, sound.bytes, sound.origins, sound.frames_le, sound.bytes_le, sound.origin_le⟩

/-- A carry queues exactly what is held, whatever the queue was. -/
theorem Queued.carry (order : Reordering (FrameId × Nat × Bytes)) : Queued (custody.carry order) := by
  have perm : ((order.run custody.outstanding.toList).mergeSort fun a b => a.2.1 ≤ b.2.1).Perm
      custody.outstanding.toList := (mergeSort_perm _ _).trans (order.perm _)
  constructor
  · simp only [queue, Custody.carry, map_map]
    refine ((perm.map _).nodup_iff).mpr ?_
    refine pairwise_map.mpr (custody.outstanding.distinct_keys_toList.imp fun apart same => ?_)
    exact apart (Std.compare_eq_iff_eq.mpr same)
  · intro id frame mem
    simp only [Custody.carry, mem_map] at mem
    obtain ⟨⟨_, seq, _⟩, mem, rfl, rfl⟩ := mem
    exact ⟨seq, ExtTreeMap.mem_toList_iff_getElem?_eq_some.mp (perm.mem_iff.mp mem)⟩

end ops

end Custody

end Ducktape
