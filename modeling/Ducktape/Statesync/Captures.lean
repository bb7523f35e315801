import Mathlib.Data.Finset.Card
import Mathlib.Data.List.AList
import Mathlib.Data.List.MinMax
import Mathlib.Data.List.Sort
import Ducktape.Sdk.Types

/-! # The boundaries a node serves to joiners

A `SyncServer` holds captures of finalized boundaries. A boundary a joiner asked for is leased, under the
tick of a recency clock; leases age out oldest first, and captures without a lease are evicted in the order
of their ids, save the one just installed.

The clock wraps around. A run long enough to wrap it loses the boundary it is just asked for
(`wrapped_clock_evicts`); a shorter one keeps serving every boundary that was asked for since fewer than
`maxCaptures` others were (`leased_keeps_served`). -/

namespace Ducktape.Statesync

open List

def chunkLen : Nat := 256 * 1024

def maxCaptures : Nat := 4

def maxLeasedBoundaries : Nat := maxCaptures

/-- A boundary: the height and the composition of the module roots served at it. -/
structure BoundaryId where
  height : Nat
  rootHash : StateRoot
  deriving DecidableEq

/-- Boundaries go by height, then by root. -/
def BoundaryId.Le (a b : BoundaryId) : Prop :=
  a.height < b.height ∨ a.height = b.height ∧ a.rootHash ≤ b.rootHash

instance : DecidableRel BoundaryId.Le := fun _ _ => inferInstanceAs (Decidable (_ ∨ _ ∧ _))

structure ResolverTarget where
  root : Bytes
  start : Nat
  opCount : Nat

inductive CapturedPayload
  | stateless
  | snapshot (bytes : Bytes)
  | resolver (target : ResolverTarget)
  | objectResolver
  | unsupported

inductive PayloadKind
  | stateless
  | snapshot
  | resolver
  | unsupported

/-- Both resolvers show the joiner the same kind. -/
def CapturedPayload.kind : CapturedPayload → PayloadKind
  | .stateless => .stateless
  | .snapshot _ => .snapshot
  | .resolver _ | .objectResolver => .resolver
  | .unsupported => .unsupported

structure CapturedModule where
  root : StateRoot
  codeHash : Option Bytes
  payload : CapturedPayload

/-- The consensus coordinates a manifest carries. -/
structure BoundaryCoords where
  epoch : Nat
  viewBase : Nat
  participants : List Bytes
  residents : List Bytes
  floorCert : Option Bytes
  appliedFrames : List (Nat × Bytes)
  pendingCutoverView : Option Nat
  deriving DecidableEq

/-- Every payload of one boundary, with the modules in the order of their ids. -/
structure Capture where
  rootHash : StateRoot
  coords : BoundaryCoords
  modules : List (ModuleId × CapturedModule)

structure ManifestEntry where
  moduleId : ModuleId
  root : StateRoot
  codeHash : Option Bytes
  kind : PayloadKind
  resolverTarget : Option ResolverTarget

structure Manifest where
  height : Nat
  rootHash : StateRoot
  coords : BoundaryCoords
  entries : List ManifestEntry

def Capture.manifest (capture : Capture) (height : Nat) : Manifest where
  height := height
  rootHash := capture.rootHash
  coords := capture.coords
  entries := capture.modules.map fun (id, m) =>
    ⟨id, m.root, m.codeHash, m.payload.kind, match m.payload with
      | .resolver target => some target
      | _ => none⟩

abbrev Captures := AList fun _ : BoundaryId => Capture

/-- The leased boundaries, each with the tick it was last asked for. -/
abbrev Leases := AList fun _ : BoundaryId => Nat

/-- The keys of a map, in the order a `BTreeMap` goes through them. -/
def inOrder {β : Type} (map : AList fun _ : BoundaryId => β) : List BoundaryId :=
  map.keys.insertionSort BoundaryId.Le

/-- Drop entries until `n` are gone or none is left to drop. -/
def dropping {α : Type} (drop : α → Option α) : Nat → α → α
  | 0, a => a
  | n + 1, a => match drop a with
    | some a => dropping drop n a
    | none => a

/-! ## The server -/

structure SyncServer where
  captures : Captures
  leased : Leases
  leaseClock : Nat

namespace SyncServer

def new : SyncServer := ⟨∅, ∅, 0⟩

/-- Stamp a boundary with the next tick of the clock, which a `wrapping_add` advances: after `2 ^ 64 - 1` of them
the newest stamp is the smallest. -/
def touchLease (id : BoundaryId) (s : SyncServer) : SyncServer :=
  let clock := (s.leaseClock + 1) % 2 ^ 64
  { s with leased := s.leased.insert id clock, leaseClock := clock }

/-- The leases without the oldest one. -/
def releaseOldest (leased : Leases) : Option Leases :=
  ((inOrder leased).argmin fun id => (leased.lookup id).getD 0).map (leased.erase ·)

def releaseLeasedOverflow (leased : Leases) : Leases :=
  dropping releaseOldest (leased.keys.length - maxLeasedBoundaries) leased

/-- The captures without the first one that is neither leased nor spared. -/
def evictOne (leased : Leases) (spared : Option BoundaryId) (captures : Captures) : Option Captures :=
  ((inOrder captures).find? fun id => id ∉ leased ∧ some id ≠ spared).map (captures.erase ·)

def evictUnleasedOverflowSparing (leased : Leases) (spared : Option BoundaryId) (captures : Captures) : Captures :=
  dropping (evictOne leased spared) (captures.keys.length - maxCaptures) captures

/-- Lease a boundary. The lease that this releases may be its own, when the clock has just wrapped, and then its
capture may be evicted as well. -/
def lease (id : BoundaryId) (s : SyncServer) : SyncServer :=
  let touched := s.touchLease id
  let leased := releaseLeasedOverflow touched.leased
  { touched with leased := leased, captures := evictUnleasedOverflowSparing leased none s.captures }

/-- Install a capture, or refresh the coordinates of the one held. -/
def installCapture (id : BoundaryId) (data : Capture) (s : SyncServer) : SyncServer :=
  match s.captures.lookup id with
  | some capture =>
    if capture.coords ≠ data.coords then
      { s with captures := s.captures.insert id { capture with coords := data.coords } }
    else s
  | none =>
    { s with captures := evictUnleasedOverflowSparing s.leased (some id) (s.captures.insert id data) }

def refreshCoords (id : BoundaryId) (coords : BoundaryCoords) (s : SyncServer) : SyncServer :=
  match s.captures.lookup id with
  | some capture =>
    if capture.coords ≠ coords then
      { s with captures := s.captures.insert id { capture with coords := coords } }
    else s
  | none => s

/-- Lease a boundary and build its manifest. -/
def manifestFor (id : BoundaryId) (s : SyncServer) : Except String Manifest × SyncServer :=
  let s := s.lease id
  match s.captures.lookup id with
  | some capture => (.ok (capture.manifest id.height), s)
  | none => (.error s!"no capture at boundary {id.height} (refetch manifest)", s)

def leasedCapture (boundary : BoundaryId) (s : SyncServer) : Except String Capture × SyncServer :=
  let root := hexLower boundary.rootHash
  if boundary ∉ s.leased then
    (.error s!"boundary {boundary.height} {root} is not leased (refetch manifest)", s)
  else
    let s := s.touchLease boundary
    match s.captures.lookup boundary with
    | some capture => (.ok capture, s)
    | none => (.error s!"no capture at boundary {boundary.height} {root} (refetch manifest)", s)

/-- A captured module of a leased boundary, or why there is none. -/
def leasedModule (boundary : BoundaryId) (moduleId : ModuleId) (s : SyncServer) :
    Except String CapturedModule × SyncServer :=
  let (found, s) := s.leasedCapture boundary
  match found with
  | .error e => (.error e, s)
  | .ok capture => match capture.modules.lookup moduleId with
    | some m => (.ok m, s)
    | none => (.error s!"no module {moduleId} in capture {boundary.height}", s)

/-- One chunk of a module's snapshot, with the length of the whole. -/
def serveChunk (boundary : BoundaryId) (moduleId : ModuleId) (offset : Nat) (s : SyncServer) :
    Except String (Nat × Bytes) × SyncServer :=
  let (found, s) := s.leasedModule boundary moduleId
  (found >>= fun m => match m.payload with
    | .snapshot bytes =>
      let total := bytes.length
      if offset > total then .error s!"offset {offset} past the {total}-byte snapshot of {moduleId}"
      else .ok (total, (bytes.drop offset).take chunkLen)
    | _ => .error s!"module {moduleId} has no snapshot payload", s)

/-- A request of a module's own lane, if the boundary serves it: the module then answers `body` itself. -/
def serveModule (boundary : BoundaryId) (moduleId : ModuleId) (body : Bytes) (s : SyncServer) :
    Except String (ModuleId × Bytes) × SyncServer :=
  let (found, s) := s.leasedModule boundary moduleId
  (found >>= fun m => match m.payload with
    | .resolver _ | .objectResolver => .ok (moduleId, body)
    | _ => .error s!"module {moduleId} has no resolver payload", s)

end SyncServer

/-! ## Runs -/

inductive Request
  | install (id : BoundaryId) (data : Capture)
  | refresh (id : BoundaryId) (coords : BoundaryCoords)
  | manifest (id : BoundaryId)
  | chunk (id : BoundaryId) (moduleId : ModuleId) (offset : Nat)
  | module (id : BoundaryId) (moduleId : ModuleId) (body : Bytes)

/-- The boundary a joiner asks for. -/
def Request.boundary : Request → Option BoundaryId
  | .manifest id | .chunk id .. | .module id .. => some id
  | _ => none

/-- The boundaries that joiners ask for. -/
def asked (requests : List Request) : Finset BoundaryId := (requests.filterMap Request.boundary).toFinset

namespace SyncServer

def step (s : SyncServer) : Request → SyncServer
  | .install id data => s.installCapture id data
  | .refresh id coords => s.refreshCoords id coords
  | .manifest id => (s.manifestFor id).2
  | .chunk id moduleId offset => (s.serveChunk id moduleId offset).2
  | .module id moduleId body => (s.serveModule id moduleId body).2

def run (s : SyncServer) (requests : List Request) : SyncServer := requests.foldl step s

/-- Manifests are built of held boundaries only. -/
def Orderly (s : SyncServer) : List Request → Prop
  | [] => True
  | request :: rest => (∀ id, request = .manifest id → id ∈ s.captures) ∧ (s.step request).Orderly rest

/-- A request for the boundary is answered from its capture. -/
def Serves (s : SyncServer) (id : BoundaryId) : Prop := (s.leasedCapture id).1.isOk

theorem run_append (s : SyncServer) (before after : List Request) :
    s.run (before ++ after) = (s.run before).run after := foldl_append

theorem orderly_append {s : SyncServer} {before after : List Request} :
    s.Orderly (before ++ after) ↔ s.Orderly before ∧ (s.run before).Orderly after := by
  induction before generalizing s with
  | nil => simp [Orderly, run]
  | cons request before ih => simp [Orderly, ih, and_assoc, run]

/-! ## Leases -/

section leases

variable {leased : Leases} {clock : Nat} {id : BoundaryId} {others : Finset BoundaryId}

/-- No two leases share a tick, and none is ahead of the clock. -/
structure Ticking (leased : Leases) (clock : Nat) : Prop where
  past : ∀ id tick, leased.lookup id = some tick → tick ≤ clock
  apart : ∀ id id' tick, leased.lookup id = some tick → leased.lookup id' = some tick → id = id'

/-- The boundary is leased, and what is leased since then is among `others`. -/
def Fresh (leased : Leases) (id : BoundaryId) (others : Finset BoundaryId) : Prop :=
  ∃ tick, leased.lookup id = some tick ∧ ∀ other t, leased.lookup other = some t → tick < t → other ∈ others

section maps

variable {β : Type} {map : AList fun _ : BoundaryId => β} {other : BoundaryId} {b : β}

theorem mem_iff_lookup : id ∈ map ↔ ∃ b, map.lookup id = some b := by
  rw [← AList.lookup_isSome, Option.isSome_iff_exists]

@[grind =] theorem lookup_insert : (map.insert id b).lookup other = if other = id then some b else map.lookup other := by
  split
  · next same => rw [same, AList.lookup_insert]
  · next apart => exact AList.lookup_insert_ne apart

@[grind =] theorem lookup_erase : (map.erase id).lookup other = if other = id then none else map.lookup other := by
  split
  · next same => rw [same, AList.lookup_erase]
  · next apart => exact AList.lookup_erase_ne apart

theorem length_erase_lookup (found : map.lookup id = some b) : (map.erase id).keys.length + 1 = map.keys.length := by
  have mem := AList.mem_keys.mp (mem_iff_lookup.mpr ⟨b, found⟩)
  rw [AList.keys_erase, length_erase_of_mem mem, Nat.sub_add_cancel (length_pos_of_mem mem)]

end maps

/-- One lease too many is released, and it is the oldest. -/
theorem released (few : leased.keys.length ≤ maxLeasedBoundaries + 1) :
    (releaseLeasedOverflow leased = leased ∧ leased.keys.length ≤ maxLeasedBoundaries) ∨
    ∃ oldest tick, leased.lookup oldest = some tick ∧ releaseLeasedOverflow leased = leased.erase oldest ∧
      leased.keys.length = maxLeasedBoundaries + 1 ∧ ∀ other t, leased.lookup other = some t → tick ≤ t := by
  by_cases full : leased.keys.length ≤ maxLeasedBoundaries
  · exact .inl ⟨by rw [releaseLeasedOverflow, Nat.sub_eq_zero_of_le full, dropping], full⟩
  have size : leased.keys.length = maxLeasedBoundaries + 1 := by omega
  have members : ∀ other, other ∈ inOrder leased ↔ other ∈ leased := by simp [inOrder, AList.mem_keys]
  cases found : (inOrder leased).argmin fun id => (leased.lookup id).getD 0 with
  | none =>
    rw [argmin_eq_none, inOrder] at found
    simp [← length_eq_zero_iff, size] at found
  | some oldest =>
    obtain ⟨tick, held⟩ := mem_iff_lookup.mp ((members oldest).mp (argmin_mem found))
    refine .inr ⟨oldest, tick, held, ?_, size, fun other t at_t => ?_⟩
    · simp [releaseLeasedOverflow, size, dropping, releaseOldest, found]
    · have least := le_of_mem_argmin ((members other).mpr (mem_iff_lookup.mpr ⟨t, at_t⟩)) found
      simpa [held, at_t] using least

variable (ticking : Ticking leased clock)
include ticking

theorem Ticking.insert (id : BoundaryId) : Ticking (leased.insert id (clock + 1)) (clock + 1) := by
  obtain ⟨past, apart⟩ := ticking
  constructor <;> grind

theorem Fresh.insert {old : BoundaryId} (fresh : Fresh leased old others) (known : id = old ∨ id ∈ others) :
    Fresh (leased.insert id (clock + 1)) old others := by
  obtain ⟨tick, found, newer⟩ := fresh
  have past := ticking.past
  by_cases old = id
  · exact ⟨clock + 1, by grind, by grind⟩
  · exact ⟨tick, by grind, by grind⟩

/-- The oldest lease of a full house is not fresh: all others are newer. -/
theorem Ticking.not_fresh {oldest : BoundaryId} {tick : Nat} (oldestAt : leased.lookup oldest = some tick)
    (least : ∀ other t, leased.lookup other = some t → tick ≤ t)
    (full : leased.keys.length = maxLeasedBoundaries + 1) (few : others.card < maxCaptures) :
    ¬ Fresh leased oldest others := by
  rintro ⟨t, found, newer⟩
  have within : (leased.erase oldest).keys.toFinset ⊆ others := by
    intro other mem
    obtain ⟨t', found'⟩ := mem_iff_lookup.mp (AList.mem_keys.mpr (mem_toFinset.mp mem))
    have apart := ticking.apart
    refine newer other t' (by grind) (lt_of_le_of_ne ?_ ?_) <;> grind
  have many := Finset.card_le_card within
  rw [toFinset_card_of_nodup (AList.keys_nodup _)] at many
  have size := length_erase_lookup oldestAt
  simp only [maxLeasedBoundaries] at full
  omega

/-- What a boundary that is asked for makes of the leases. -/
theorem Ticking.asked (id : BoundaryId) (few : leased.keys.length ≤ maxLeasedBoundaries) :
    let after := releaseLeasedOverflow (leased.insert id (clock + 1))
    Ticking after (clock + 1) ∧ after.keys.length ≤ maxLeasedBoundaries ∧ Fresh after id ∅ ∧
      (∀ other ∈ after, other = id ∨ other ∈ leased) ∧
      ∀ old others, Fresh leased old others → id = old ∨ id ∈ others → others.card < maxCaptures →
        Fresh after old others := by
  have size : (leased.insert id (clock + 1)).keys.length ≤ maxLeasedBoundaries + 1 := by
    rw [AList.keys_insert, length_cons]
    exact Nat.succ_le_succ ((erase_sublist ..).length_le.trans few)
  have ticks := ticking.insert id
  have newest : Fresh (leased.insert id (clock + 1)) id ∅ :=
    ⟨clock + 1, AList.lookup_insert _, fun other t found late => absurd (ticks.past other t found) (Nat.not_le.mpr late)⟩
  rcases released size with ⟨same, short⟩ | ⟨oldest, tick, oldestAt, erased, full, least⟩
  · rw [same]
    exact ⟨ticks, short, newest, by simp, fun old others fresh known _ => fresh.insert ticking known⟩
  have survives : ∀ {old others}, Fresh (leased.insert id (clock + 1)) old others → others.card < maxCaptures →
      Fresh ((leased.insert id (clock + 1)).erase oldest) old others := by
    intro old others fresh few
    have kept : old ≠ oldest := fun same => ticks.not_fresh oldestAt least full few (same ▸ fresh)
    obtain ⟨t, found, newer⟩ := fresh
    exact ⟨t, by grind, by grind⟩
  rw [erased]
  refine ⟨?_, ?_, survives newest (by decide), by simp, fun old others fresh known few =>
    survives (fresh.insert ticking known) few⟩
  · obtain ⟨past, apart⟩ := ticks
    constructor <;> grind
  · have := length_erase_lookup oldestAt
    omega

end leases

/-! ## Evictions -/

section evictions

variable (leased : Leases) (spared : Option BoundaryId) (captures : Captures)

/-- Evictions take neither a leased nor the spared capture and leave the others as they are; they stop early
only when nothing else is left. -/
theorem evicted (n : Nat) :
    let left := dropping (evictOne leased spared) n captures
    (∀ id, id ∈ leased ∨ some id = spared → left.lookup id = captures.lookup id) ∧
    (∀ id c, left.lookup id = some c → captures.lookup id = some c) ∧
    (left.keys.length + n = captures.keys.length ∨ ∀ id ∈ left, id ∈ leased ∨ some id = spared) := by
  induction n generalizing captures with
  | zero => simp [dropping]
  | succ n ih =>
    cases found : (inOrder captures).find? fun id => id ∉ leased ∧ some id ≠ spared with
    | none =>
      simp only [dropping, evictOne, found]
      refine ⟨by simp, by simp, .inr fun id mem => ?_⟩
      simp only [inOrder, find?_eq_none, mem_insertionSort, decide_eq_true_eq] at found
      exact Classical.not_not.mp fun neither => found id (AList.mem_keys.mp mem) (not_or.mp neither)
    | some gone =>
      obtain ⟨kept, old, left⟩ := ih (captures.erase gone)
      simp only [dropping, evictOne, found, Option.map_some]
      obtain ⟨c, at_c⟩ := mem_iff_lookup.mp (AList.mem_keys.mpr ((mem_insertionSort _).mp (mem_of_find?_eq_some found)))
      have size := length_erase_lookup at_c
      exact ⟨by grind, by grind, left.imp_left fun same => by omega⟩

theorem evict_keeps : let left := evictUnleasedOverflowSparing leased spared captures
    (∀ id, id ∈ leased ∨ some id = spared → left.lookup id = captures.lookup id) ∧
    ∀ id c, left.lookup id = some c → captures.lookup id = some c :=
  ⟨(evicted ..).1, (evicted ..).2.1⟩

variable {leased} in
theorem length_evict (few : leased.keys.length ≤ maxLeasedBoundaries) :
    (evictUnleasedOverflowSparing leased spared captures).keys.length ≤ maxCaptures + 1 := by
  obtain ⟨-, -, fewer | taken⟩ := evicted leased spared captures (captures.keys.length - maxCaptures)
  · rw [evictUnleasedOverflowSparing]
    omega
  have within : (evictUnleasedOverflowSparing leased spared captures).keys ⊆ spared.toList ++ leased.keys :=
    fun id mem => by
      have := taken id (AList.mem_keys.mpr mem)
      grind [AList.mem_keys]
  have size := (subperm_of_subset (AList.keys_nodup _) within).length_le
  simp only [length_append, maxLeasedBoundaries] at size few
  have : spared.toList.length ≤ 1 := Option.length_toList_le
  omega

end evictions

/-! ## One request -/

variable {s : SyncServer} {request : Request}

/-- The boundary whose lease a request renews. -/
def renewed (s : SyncServer) : Request → Option BoundaryId
  | .manifest id => some id
  | .chunk id .. | .module id .. => if id ∈ s.leased then some id else none
  | _ => none

/-- No lease without its capture, and neither too many leases nor too many captures. -/
structure Sound (s : SyncServer) : Prop where
  ticking : Ticking s.leased s.leaseClock
  few : s.leased.keys.length ≤ maxLeasedBoundaries
  held : ∀ id ∈ s.leased, id ∈ s.captures
  bounded : s.captures.keys.length ≤ maxCaptures + 1

theorem leasedCapture_snd (id : BoundaryId) :
    (s.leasedCapture id).2 = if id ∈ s.leased then s.touchLease id else s := by
  unfold leasedCapture
  split <;> grind

theorem leasedModule_snd (id : BoundaryId) (moduleId : ModuleId) :
    (s.leasedModule id moduleId).2 = (s.leasedCapture id).2 := by
  unfold leasedModule
  grind

variable (request) in
theorem leases_step (few : s.leased.keys.length ≤ maxLeasedBoundaries) (short : s.leaseClock + 1 < 2 ^ 64) :
    ((s.step request).leased, (s.step request).leaseClock) = match s.renewed request with
      | some id => (releaseLeasedOverflow (s.leased.insert id (s.leaseClock + 1)), s.leaseClock + 1)
      | none => (s.leased, s.leaseClock) := by
  have touched : ∀ id ∈ s.leased, releaseLeasedOverflow (s.leased.insert id (s.leaseClock + 1)) =
      s.leased.insert id (s.leaseClock + 1) := fun id mem => by
    have size : (s.leased.insert id (s.leaseClock + 1)).keys.length = s.leased.keys.length := by
      have := length_pos_of_mem (AList.mem_keys.mp mem)
      rw [AList.keys_insert, length_cons, length_erase_of_mem (AList.mem_keys.mp mem)]
      omega
    rw [releaseLeasedOverflow, size, Nat.sub_eq_zero_of_le few, dropping]
  cases request with
  | install | refresh => grind [step, installCapture, refreshCoords, renewed]
  | manifest id => grind [step, manifestFor, lease, touchLease, renewed]
  | chunk | module =>
    simp only [step, serveChunk, serveModule, leasedModule_snd, leasedCapture_snd, renewed]
    grind [touchLease]

/-- A request drops no leased capture and alters no payload. -/
theorem captures_step (s : SyncServer) (request : Request) :
    (∀ id ∈ (s.step request).leased, id ∈ s.captures → id ∈ (s.step request).captures) ∧
    (∀ id c c', s.captures.lookup id = some c → (s.step request).captures.lookup id = some c' →
      c'.modules = c.modules) ∧
    ((s.step request).leased.keys.length ≤ maxLeasedBoundaries → s.captures.keys.length ≤ maxCaptures + 1 →
      (s.step request).captures.keys.length ≤ maxCaptures + 1) := by
  have recoordinated : ∀ {id capture coords}, s.captures.lookup id = some capture →
      (s.captures.insert id { capture with coords := coords }).keys.length = s.captures.keys.length := fun found => by
    rw [AList.keys_insert, length_cons, ← AList.keys_erase, length_erase_lookup found]
  simp only [mem_iff_lookup]
  cases request with
  | install id data | refresh id coords =>
    simp only [step, installCapture, refreshCoords]
    cases found : s.captures.lookup id with
    | some capture =>
      simp only
      split
      · exact ⟨by grind, by grind, fun _ bounded => (recoordinated found).trans_le bounded⟩
      · exact ⟨by grind, by grind, fun _ bounded => bounded⟩
    | none =>
      first
      | exact ⟨by grind, by grind, fun _ bounded => bounded⟩
      | have := evict_keeps s.leased (some id) (s.captures.insert id data)
        exact ⟨by grind [mem_iff_lookup], by grind, fun few _ => length_evict _ _ few⟩
  | manifest id =>
    have same : (s.manifestFor id).2 = s.lease id := by grind [manifestFor]
    simp only [step, same]
    have := evict_keeps (s.lease id).leased none s.captures
    exact ⟨by grind [lease, mem_iff_lookup], by grind [lease], fun few _ => length_evict _ _ few⟩
  | chunk | module =>
    simp only [step, serveChunk, serveModule, leasedModule_snd, leasedCapture_snd]
    split <;> exact ⟨by grind [touchLease], by grind [touchLease], fun _ bounded => bounded⟩

variable (request) in
/-- What a request preserves. -/
theorem Sound.step (sound : s.Sound) (short : s.leaseClock + 1 < 2 ^ 64)
    (held : ∀ id, request = .manifest id → id ∈ s.captures) :
    (s.step request).Sound ∧ (s.step request).leaseClock ≤ s.leaseClock + 1 ∧
    (∀ id, s.renewed request = some id → Fresh (s.step request).leased id ∅) ∧
    ∀ old others, Fresh s.leased old others → (∀ id, request.boundary = some id → id = old ∨ id ∈ others) →
      others.card < maxCaptures → Fresh (s.step request).leased old others := by
  have leases := leases_step request sound.few short
  cases asks : s.renewed request with
  | none =>
    simp only [asks, Prod.mk.injEq] at leases
    have few : (s.step request).leased.keys.length ≤ maxLeasedBoundaries := leases.1 ▸ sound.few
    obtain ⟨kept, -, bounded⟩ := s.captures_step request
    refine ⟨⟨?_, few, fun id mem => kept id mem (sound.held id (leases.1 ▸ mem)), bounded few sound.bounded⟩, ?_⟩
    · rw [leases.1, leases.2]
      exact sound.ticking
    · simp +contextual [leases]
  | some id =>
    simp only [asks, Prod.mk.injEq] at leases
    obtain ⟨ticks, few, newest, from_before, survives⟩ := sound.ticking.asked id sound.few
    rw [← leases.1] at few from_before
    obtain ⟨kept, -, bounded⟩ := s.captures_step request
    have here : request.boundary = some id ∧ id ∈ s.captures := by
      have := sound.held id
      cases request <;> grind [renewed, Request.boundary]
    refine ⟨⟨?_, few, fun other mem => kept other mem ?_, bounded few sound.bounded⟩, leases.2.le, ?_, ?_⟩
    · rw [leases.1, leases.2]
      exact ticks
    · rcases from_before other mem with rfl | before
      exacts [here.2, sound.held other before]
    · rintro _ ⟨⟩
      exact leases.1 ▸ newest
    · exact fun old others fresh known few => leases.1 ▸ survives old others fresh (known id here.1) few

variable {requests : List Request}

/-- What a run preserves. -/
theorem Sound.run (sound : s.Sound) (orderly : s.Orderly requests)
    (short : s.leaseClock + requests.length < 2 ^ 64) :
    (s.run requests).Sound ∧ (s.run requests).leaseClock ≤ s.leaseClock + requests.length ∧
    ∀ old others, Fresh s.leased old others → (∀ id ∈ Statesync.asked requests, id = old ∨ id ∈ others) →
      others.card < maxCaptures → Fresh (s.run requests).leased old others := by
  induction requests generalizing s with
  | nil => exact ⟨sound, le_rfl, fun _ _ fresh _ _ => fresh⟩
  | cons request rest ih =>
    rw [length_cons] at short ⊢
    obtain ⟨next, clock, -, keeps⟩ := sound.step request (by omega) orderly.1
    obtain ⟨last, clock', keeps'⟩ := ih next orderly.2 (by omega)
    refine ⟨last, clock'.trans (by omega), fun old others fresh known few => ?_⟩
    refine keeps' old others (keeps old others fresh (fun id asks => known id ?_) few)
      (fun id mem => known id ?_) few
    · simp [Statesync.asked, asks]
    · simp only [Statesync.asked, mem_toFinset, mem_filterMap, mem_cons] at mem ⊢
      exact mem.imp fun _ found => ⟨.inr found.1, found.2⟩

theorem sound_run (orderly : new.Orderly requests) (short : requests.length < 2 ^ 64) :
    (new.run requests).Sound ∧ (new.run requests).leaseClock ≤ requests.length := by
  have start : new.Sound := ⟨⟨by simp [new], by simp [new]⟩, by simp [new], by simp [new], by simp [new]⟩
  obtain ⟨sound, clock, -⟩ := start.run orderly ((Nat.zero_add _).symm ▸ short)
  exact ⟨sound, clock.trans_eq (Nat.zero_add _)⟩

variable {id : BoundaryId}

theorem serves_iff : s.Serves id ↔ id ∈ s.leased ∧ id ∈ s.captures := by
  grind [Serves, leasedCapture, touchLease, mem_iff_lookup, Except.toBool]

theorem installCapture_held (id : BoundaryId) (data : Capture) : id ∈ (s.installCapture id data).captures := by
  have := evict_keeps s.leased (some id) (s.captures.insert id data)
  grind [installCapture, mem_iff_lookup]

/-- A leased boundary keeps being served, in runs too short to wrap the clock. -/
theorem leased_keeps_served {requests : List Request} (orderly : new.Orderly requests)
    (short : requests.length + 1 < 2 ^ 64) :
    let s := new.run requests
    (∀ id data, ((s.installCapture id data).manifestFor id).1.isOk) ∧
    s.captures.keys.length ≤ maxCaptures + 1 ∧ (∀ id ∈ s.leased, id ∈ s.captures) ∧
    (∀ request id c c', s.captures.lookup id = some c → (s.step request).captures.lookup id = some c' →
      c'.modules = c.modules) ∧
    ∀ before request after id, requests = before ++ request :: after → request.boundary = some id →
      ((∃ id, request = .manifest id) ∨ (new.run before).Serves id) →
      (Statesync.asked after \ {id}).card < maxCaptures → s.Serves id := by
  intro s
  obtain ⟨sound, clock⟩ : s.Sound ∧ s.leaseClock ≤ requests.length := sound_run orderly (by omega)
  refine ⟨fun id data => ?_, sound.bounded, sound.held, fun request => (s.captures_step request).2.1, ?_⟩
  · have ticked : (s.installCapture id data).leaseClock = s.leaseClock :=
      congrArg Prod.snd (leases_step (.install id data) sound.few (by omega))
    obtain ⟨installed, -⟩ := sound.step (.install id data) (by omega) (by simp)
    obtain ⟨⟨_, _, held, _⟩, -, renewed, -⟩ := installed.step (.manifest id)
      (by rw [step, ticked]; omega) (by rintro _ ⟨⟩; exact installCapture_held id data)
    obtain ⟨tick, found, -⟩ := renewed id rfl
    have := held id (mem_iff_lookup.mpr ⟨tick, found⟩)
    grind [step, manifestFor, mem_iff_lookup, Except.toBool]
  · rintro before request after id rfl asks served few
    obtain ⟨orderly, held, orderly'⟩ := orderly_append.mp orderly
    rw [length_append, length_cons] at short
    obtain ⟨start, clock⟩ := sound_run orderly (by omega)
    obtain ⟨next, clock', newest, -⟩ := start.step request (by omega) held
    have renews : (new.run before).renewed request = some id := by
      rcases served with ⟨other, rfl⟩ | served
      · exact asks
      · cases request <;> simp_all [renewed, Request.boundary, serves_iff]
    obtain ⟨tick, found, newer⟩ := newest id renews
    obtain ⟨last, -, keeps⟩ := next.run orderly' (by omega)
    obtain ⟨tick, found, -⟩ := keeps id _ ⟨tick, found, by grind⟩ (by grind) few
    have leased := mem_iff_lookup.mpr ⟨tick, found⟩
    simp only [s, run_append]
    exact serves_iff.mpr ⟨leased, last.held id leased⟩

/-- A boundary of a short sample run. -/
def sampleId (height : Nat) : BoundaryId := ⟨height, []⟩

def sampleCapture : Capture := ⟨[], ⟨0, 0, [], [], none, [], none⟩, [("kv", ⟨[], none, .snapshot [7]⟩)]⟩

/-- Capture the boundary and show its manifest. -/
def serving (height : Nat) : List Request :=
  [.install (sampleId height) sampleCapture, .manifest (sampleId height)]

theorem orderly_serving (s : SyncServer) (height : Nat) : s.Orderly (serving height) :=
  ⟨nofun, by rintro _ ⟨⟩; exact installCapture_held .., trivial⟩

theorem orderly_chunks (id : BoundaryId) (n : Nat) : s.Orderly (replicate n (.chunk id "kv" 0)) := by
  induction n generalizing s with
  | zero => trivial
  | succ n ih => exact ⟨nofun, ih⟩

/-- Four boundaries are served, the first one is asked for again, and three more are served. -/
def joining : List Request :=
  serving 0 ++ serving 1 ++ serving 2 ++ serving 3 ++
    .chunk (sampleId 0) "kv" 0 :: (serving 4 ++ serving 5 ++ serving 6)

/-- The first boundary outlives three others, and three more once it is asked for again. -/
theorem leased_keeps_served_sample : (new.run joining).Serves (sampleId 0) := by
  have early : (new.run (serving 0 ++ serving 1 ++ serving 2 ++ serving 3)).Serves (sampleId 0) := by
    refine (leased_keeps_served ?_ (by decide)).2.2.2.2 [.install (sampleId 0) sampleCapture]
      (.manifest (sampleId 0)) _ _ rfl rfl (.inl ⟨_, rfl⟩) (by decide)
    simp only [orderly_append, orderly_serving, and_self]
  refine (leased_keeps_served ?_ (by decide)).2.2.2.2 _ (.chunk (sampleId 0) "kv" 0) _ _ rfl rfl (.inr early)
    (by decide)
  simp only [joining, orderly_append, orderly_serving, true_and]
  exact ⟨nofun, by simp only [orderly_append, orderly_serving, and_self]⟩

/-! ## The clock wraps around -/

theorem step_chunk (leased : id ∈ s.leased) (short : s.leaseClock + 1 < 2 ^ 64) :
    s.step (.chunk id "kv" 0) =
      { s with leased := s.leased.insert id (s.leaseClock + 1), leaseClock := s.leaseClock + 1 } := by
  simp only [step, serveChunk, leasedModule_snd, leasedCapture_snd, if_pos leased, touchLease, Nat.mod_eq_of_lt short]

theorem run_chunks (leased : id ∈ s.leased) (n : Nat) (short : s.leaseClock + n + 1 < 2 ^ 64) :
    s.run (replicate (n + 1) (.chunk id "kv" 0)) =
      { s with leased := s.leased.insert id (s.leaseClock + n + 1), leaseClock := s.leaseClock + n + 1 } := by
  induction n with
  | zero => exact step_chunk leased short
  | succ n ih =>
    rw [replicate_succ', run_append, ih (by omega)]
    refine (step_chunk (by simp) short).trans ?_
    rw [AList.insert_insert]
    rfl

/-- A boundary asked for until the clock is about to wrap makes the next one's lease the oldest. -/
theorem wrapped_clock_evicts : ∃ requests id data, new.Orderly requests ∧
    ¬ (((new.run requests).installCapture id data).manifestFor id).1.isOk := by
  refine ⟨serving 0 ++ serving 1 ++ serving 2 ++ serving 3 ++
    replicate (2 ^ 64 - 6 + 1) (.chunk (sampleId 3) "kv" 0), sampleId 4, sampleCapture, ?_, ?_⟩
  · simp only [orderly_append, orderly_serving, orderly_chunks, and_self]
  · rw [run_append, run_chunks (by decide +kernel) _ (by decide +kernel)]
    decide +kernel

end SyncServer

end Ducktape.Statesync
