import Mathlib.Data.Finset.Insert
import Ducktape.Node.Frames

/-! # The finalized inbox

Between the consensus engine, which reports finalizations in whatever order it learns of them, and the
node, which drains them: a log of unreleased digests keyed by view, the payloads resolved so far, and the
digests recorded before. A drain releases the log from its least view up, as far as the payloads are
there (`Inbox.drain_releases`). -/

namespace Ducktape

open Function List

variable {Digest : Type} {digest : Digest} {log : List (Nat × Digest)}

/-! ## A log keyed by view -/

/-- Put a digest under its view. -/
def insertView (view : Nat) (digest : Digest) : List (Nat × Digest) → List (Nat × Digest)
  | [] => [(view, digest)]
  | (other, held) :: log =>
    if view < other then (view, digest) :: (other, held) :: log
    else if view = other then (view, digest) :: log
    else (other, held) :: insertView view digest log

theorem of_mem_insertView {view : Nat} {item : Nat × Digest} (mem : item ∈ insertView view digest log) :
    item = (view, digest) ∨ item ∈ log := by
  fun_induction insertView view digest log <;> grind

/-- A view that is free takes nothing away. -/
theorem mem_insertView {view : Nat} (free : ∀ held, (view, held) ∉ log) (item : Nat × Digest) :
    item ∈ insertView view digest log ↔ item = (view, digest) ∨ item ∈ log := by
  fun_induction insertView view digest log <;> grind

theorem insertView_ascending {view : Nat} (ascending : log.Pairwise (·.1 < ·.1)) :
    (insertView view digest log).Pairwise (·.1 < ·.1) := by
  fun_induction insertView view digest log with
  | case1 => exact pairwise_singleton ..
  | case2 other held log below =>
    simp only [pairwise_cons] at ascending ⊢
    grind
  | case3 held log => exact pairwise_cons.mpr (pairwise_cons.mp ascending)
  | case4 other held log _ _ ih =>
    obtain ⟨above, rest⟩ := pairwise_cons.mp ascending
    refine pairwise_cons.mpr ⟨fun item mem => ?_, ih rest⟩
    have := of_mem_insertView mem
    grind

/-! ## The inbox -/

variable [DecidableEq Digest]

/-- `FinalizedInbox`. -/
structure Inbox (Digest : Type) where
  /-- The unreleased digests, keyed by view. -/
  log : List (Nat × Digest)
  ascending : log.Pairwise (·.1 < ·.1)
  /-- The payloads resolved. -/
  ready : Digest → Option Bytes
  /-- Every digest ever recorded. -/
  seen : Finset Digest

/-- Release from the least view up, until a payload is missing. -/
def release : List (Nat × Digest) → (Digest → Option Bytes) →
    List (Nat × Bytes) × List (Nat × Digest) × (Digest → Option Bytes)
  | [], ready => ([], [], ready)
  | (view, digest) :: log, ready =>
    match ready digest with
    | none => ([], (view, digest) :: log, ready)
    | some bytes =>
      let rest := release log (update ready digest none)
      ((view, bytes) :: rest.1, rest.2)

theorem release_suffix (log : List (Nat × Digest)) (ready : Digest → Option Bytes) :
    (release log ready).2.1 <:+ log := by
  induction log generalizing ready with
  | nil => exact suffix_rfl
  | cons head log ih =>
    unfold release
    split
    · exact suffix_rfl
    · exact (ih _).trans (suffix_cons _ _)

namespace Inbox

/-- A new process knows nothing. -/
def empty : Inbox Digest := ⟨[], List.Pairwise.nil, fun _ => none, ∅⟩

/-- Log a digest under its view. -/
def enter (view : Nat) (digest : Digest) (inbox : Inbox Digest) : Inbox Digest :=
  { inbox with
    log := insertView view digest inbox.log
    ascending := insertView_ascending inbox.ascending }

/-- `fill_fetched`. -/
def fillFetched (digest : Digest) (bytes : Bytes) (inbox : Inbox Digest) : Inbox Digest :=
  { inbox with ready := update inbox.ready digest (some bytes) }

/-- `record`: log a finalization under its view, unless its digest was recorded before. True if its
payload has to be fetched. -/
def record (view : Nat) (digest : Digest) (stored : Option Bytes) (resolverEnabled : Bool)
    (inbox : Inbox Digest) : Bool × Inbox Digest :=
  if digest ∈ inbox.seen then (false, inbox)
  else
    let inbox := { inbox with seen := insert digest inbox.seen }
    let occupiedByAnother := (inbox.log.find? (·.1 = view)).any (·.2 ≠ digest)
    if occupiedByAnother then (false, inbox)
    else match stored with
    | some bytes => (false, (inbox.enter view digest).fillFetched digest bytes)
    | none => if resolverEnabled then (true, inbox.enter view digest) else (false, inbox)

/-- `drain`. -/
def drain (inbox : Inbox Digest) : List (Nat × Bytes) × Inbox Digest :=
  let released := release inbox.log inbox.ready
  (released.1, { inbox with
    log := released.2.1
    ascending := inbox.ascending.sublist (release_suffix _ _).sublist
    ready := released.2.2 })

variable {inbox : Inbox Digest} {view : Nat} {digest : Digest} {stored : Option Bytes} {resolver : Bool}

/-- A digest recorded before is dropped. -/
theorem record_seen (seen : digest ∈ inbox.seen) :
    (inbox.record view digest stored resolver).2 = inbox := by
  rw [record, if_pos seen]

/-- A new digest at a free view is logged, if its payload is there or can be fetched. -/
theorem record_new (new : digest ∉ inbox.seen) (free : ∀ held, (view, held) ∉ inbox.log)
    (reachable : stored.isSome = true ∨ resolver = true) :
    (inbox.record view digest stored resolver).2.log = insertView view digest inbox.log ∧
      (inbox.record view digest stored resolver).2.seen = insert digest inbox.seen := by
  have vacant : inbox.log.find? (·.1 = view) = none :=
    find?_eq_none.mpr fun item mem held => free item.2 (by simpa [← of_decide_eq_true held] using mem)
  unfold record
  rw [if_neg new]
  simp only [vacant]
  cases stored with
  | some bytes => exact ⟨rfl, rfl⟩
  | none =>
    obtain rfl : resolver = true := reachable.resolve_left Bool.false_ne_true
    exact ⟨rfl, rfl⟩

/-- Every payload resolved is its digest's. -/
def Addressed (payload : Digest → Bytes) (inbox : Inbox Digest) : Prop :=
  ∀ digest bytes, inbox.ready digest = some bytes → bytes = payload digest

variable {payload : Digest → Bytes}

theorem Addressed.fillFetched (addressed : inbox.Addressed payload) (digest : Digest) :
    (inbox.fillFetched digest (payload digest)).Addressed payload := by
  intro other bytes held
  simp only [Inbox.fillFetched] at held
  by_cases same : other = digest
  · rw [same, update_self, Option.some_inj] at held
    rw [same, held]
  · rw [update_of_ne same] at held
    exact addressed other bytes held

theorem Addressed.record (addressed : inbox.Addressed payload)
    (content : ∀ bytes, stored = some bytes → bytes = payload digest) :
    (inbox.record view digest stored resolver).2.Addressed payload := by
  have kept : ∀ other : Inbox Digest, other.ready = inbox.ready → other.Addressed payload :=
    fun other same d bytes held => addressed d bytes (same ▸ held)
  unfold Inbox.record
  split
  · exact addressed
  simp only
  split
  · exact kept _ rfl
  split
  · rw [content _ rfl]
    exact (kept _ rfl).fillFetched digest
  · split <;> exact kept _ rfl

theorem release_releases {log : List (Nat × Digest)} {ready : Digest → Option Bytes}
    (addressed : ∀ digest bytes, ready digest = some bytes → bytes = payload digest) :
    (∃ released, log = released ++ (release log ready).2.1 ∧
      (release log ready).1 = released.map fun item => (item.1, payload item.2)) ∧
    ∀ digest bytes, (release log ready).2.2 digest = some bytes → bytes = payload digest := by
  fun_induction release log ready with
  | case1 | case2 => exact ⟨⟨[], rfl, rfl⟩, addressed⟩
  | case3 view digest log ready bytes held rest ih =>
    obtain ⟨⟨released, split, out⟩, content⟩ := ih fun other bytes found => by
      by_cases same : other = digest
      · simp [same] at found
      · exact addressed other bytes (by rwa [update_of_ne same] at found)
    refine ⟨⟨(view, digest) :: released, congrArg ((view, digest) :: ·) split, ?_⟩, content⟩
    rw [addressed digest bytes held]
    exact congrArg ((view, payload digest) :: ·) out

/-- A drain releases a first part of the log, with its payloads. -/
theorem drain_releases (addressed : inbox.Addressed payload) :
    ∃ released, inbox.log = released ++ inbox.drain.2.log ∧
      inbox.drain.1 = released.map fun item => (item.1, payload item.2) :=
  (release_releases addressed).1

theorem Addressed.drain (addressed : inbox.Addressed payload) : inbox.drain.2.Addressed payload :=
  (release_releases addressed).2

end Inbox

end Ducktape
