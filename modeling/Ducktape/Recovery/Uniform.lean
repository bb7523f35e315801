import Ducktape.Recovery.Restart

/-! # Replay refusal across restarts

A `Replica` is a node with its disk: the journal and the last checkpoint. Its life is any mix of drains,
proposals, cutovers, checkpoints, prunes of the journal and crashes with a recovery after them
(`Life`), and what it settled is the heights whose seals it has not lost. However it lived, its replay
window holds the newest batches it settled (`life_remembers`): the checkpoint's window, the journal
walk and the trailing block always add up to that. So nodes that settled the same heights refuse the
same batches (`replay_uniform`). -/

namespace Ducktape

open Lib OrderedNode List SealedBatch Recovery Record Entry

variable {C O : Type} {past : List SealedBatch}

/-! ## A node and its disk -/

/-- A node, and the checkpoint a crash falls back on. -/
structure Replica (C O : Type) where
  node : OrderedNode C O Store
  manifest : Recovery.Manifest
  /-- Where the journal ended at the checkpoint, counted from the first record it retains. -/
  position : Nat
  /-- Where it ended at the checkpoint before. -/
  previous : Nat

/-- `prune_oplog`: drop the records before a position. -/
def Store.pruneOplog (count : Nat) (store : Store) : Store where
  journal := ⟨store.journal.start + count, store.journal.records.drop count⟩
  heightIndex := store.heightIndex.filter (store.journal.start + count ≤ ·.2)
  manifestHeight := store.manifestHeight

/-- The batch a record opens a block for. -/
def Record.opensBatch (crypto : FrameCrypto) : Record → Option SealedBatch
  | .block height frame _ => some ⟨height, frameId crypto frame, false⟩
  | _ => none

namespace Replica

variable (m : Replica C O)

/-- The retained records. -/
def records : List Record := m.node.sink.journal.records

/-- `write_manifest`. -/
def checkpoint (manifest : Recovery.Manifest) : Replica C O where
  node := { m.node with sink := { m.node.sink with manifestHeight := manifest.height } }
  manifest := manifest
  position := m.records.length
  previous := m.position

/-- Drop the records before the previous checkpoint. -/
def prune : Replica C O where
  node := { m.node with sink := m.node.sink.pruneOplog m.previous }
  manifest := m.manifest
  position := m.position - m.previous
  previous := 0

/-- The node over what recovery reached: its floors at the tip, its window seeded. -/
def bootFrom (recovered : Recovery.Recovered) (code : Host C O) (host : HostState C) (store : Store) :
    Replica C O :=
  let finalized := recovered.height.map fun height => FinalizedBlock.mk height recovered.rootHash
  let node := resume code host store finalized recovered.viewBase
  { m with node := node.seedReplayWindow recovered.appliedFrames }

/-- Boot over what a crash left of the journal, and of the host; true if a block was rolled forward. -/
def reboot (crypto : FrameCrypto) (realize : Recovery.Realize C O) (left : List Record) (code : Host C O)
    (host : HostState C) : Except RecoveryError (Bool × Replica C O) :=
  match Recovery.recover crypto realize m.manifest code host
      (.reopen ⟨m.node.sink.journal.start, left⟩ m.manifest.height) with
  | (.error e, _) => .error e
  | (.ok (recovered, code, host), store) =>
    .ok (recovered.rolledForward, m.bootFrom recovered code host store)

end Replica

/-- What is left of the past once the journal lost its end: a height a lost seal. -/
def survivors (past : List SealedBatch) (records left : List Record) : List SealedBatch :=
  past.take (past.length -
    ((records.filterMap Record.seals).length - (left.filterMap Record.seals).length))

/-- The batch of the last block a journal opened. -/
def lastOpened (crypto : FrameCrypto) (records : List Record) : Option SealedBatch :=
  (records.filterMap (Record.opensBatch crypto)).getLast?

section Life

variable (crypto : FrameCrypto) (realize : Recovery.Realize C O)

/-- The replicas a node can come to, with what each has settled. -/
inductive Life : Replica C O → List SealedBatch → Prop
  /-- A new node: nothing journaled, and a checkpoint of nothing. -/
  | boot (code : Host C O) (host : HostState C) (viewBase : Nat) (manifest : Recovery.Manifest)
      (unsettled : manifest.height = none) (empty : manifest.appliedFrames = []) :
      Life ⟨resume code host (.reopen ⟨0, []⟩ none) none viewBase, manifest, 0, 0⟩ []
  /-- An event the process survives: a drain, a proposal, a cutover. -/
  | step {m : Replica C O} {past : List SealedBatch} (event : LaneEvent) (life : Life m past)
      (survived : ∀ e, (laneStep (journaledLane crypto realize) event m.node).1 = .error e →
        e.stops = false) :
      Life { m with node := (laneStep (journaledLane crypto realize) event m.node).2 }
        (past ++ settledIn (journaledLane crypto realize) m.node event)
  /-- A checkpoint at the finalized boundary, with the replay window. -/
  | checkpoint {m : Replica C O} {past : List SealedBatch} (manifest : Recovery.Manifest)
      (life : Life m past) (boundary : manifest.height = m.node.finalized.map (·.height))
      (window : manifest.appliedFrames = boundWindow m.node.replayWindow) :
      Life (m.checkpoint manifest) past
  /-- A prune up to the previous checkpoint, once heights were sealed between the two. -/
  | prune {m : Replica C O} {past : List SealedBatch} (life : Life m past)
      (sealed : ((m.records.drop m.previous).take (m.position - m.previous)).filterMap Record.seals ≠ []) :
      Life m.prune past
  /-- A crash in or after an event, and a recovery: the journal loses its end, never what it held at
  the checkpoint. -/
  | restart {m m' : Replica C O} {past : List SealedBatch} {rolled : Bool} (event : LaneEvent)
      (left : List Record) (code : Host C O) (host : HostState C) (life : Life m past)
      (crash : left <+: (laneStep (journaledLane crypto realize) event m.node).2.sink.journal.records)
      (durable : m.position ≤ left.length)
      (reboots : m.reboot crypto realize left code host = .ok (rolled, m')) :
      Life m' (survivors (past ++ settledIn (journaledLane crypto realize) m.node event)
          (laneStep (journaledLane crypto realize) event m.node).2.sink.journal.records left ++
        if rolled then (lastOpened crypto left).toList else [])

end Life

/-! ## What a journal tells -/

section Tells

variable {crypto : FrameCrypto} {entries : List Entry} {past : List SealedBatch}
  {checkpoint : Option Nat}

/-- Parts of a journal tell parts of the past. -/
theorem Tells.split {first second : List Entry} (tells : Tells crypto (first ++ second) past) :
    ∃ early late, past = early ++ late ∧ Tells crypto first early ∧ Tells crypto second late := by
  rw [Tells, filterMap_append] at tells
  obtain ⟨early, late, rfl, first, second⟩ := map_eq_append_iff.mp tells.symm
  exact ⟨early, late, rfl, first.symm, second.symm⟩

/-- The heights told are the heights settled. -/
theorem Tells.heights (tells : Tells crypto entries past) :
    settledHeights entries = past.map (·.height) := by
  have same : ∀ entry : Entry, entry.height? = (entry.settles crypto).map (·.1) := by
    intro entry
    cases entry <;> rfl
  have heights : settledHeights entries = (entries.filterMap (settles crypto)).map (·.1) := by
    rw [map_filterMap]
    exact congrArg (filterMap · entries) (funext same)
  rw [heights, tells, map_map]
  rfl

/-- A ledger seals what it tells of. -/
theorem Tells.seals (tells : Tells crypto entries past) :
    (ledgerRecords entries).filterMap seals = past.map (·.height) := by
  rw [ledgerRecords_seals, tells.heights]

theorem restored_of_told {entry : Entry} {sealed : SealedBatch}
    (told : entry.settles crypto = some sealed.told)
    (refused : ∀ outcome, entry = .refused outcome → belowCheckpoint checkpoint outcome.height) :
    restored crypto checkpoint entry =
      if belowCheckpoint checkpoint sealed.height then none else some sealed.mark := by
  cases entry with
  | pin | cutover => cases told
  | block settled =>
    obtain ⟨height, batch, _ | _⟩ := sealed <;> simp [settles, SealedBatch.told] at told
    obtain ⟨rfl, rfl⟩ := told
    rfl
  | refused outcome =>
    have height : outcome.height = sealed.height := congrArg Prod.fst (Option.some.inj told)
    rw [if_pos (height ▸ refused outcome rfl)]
    rfl

/-- What replay takes from the journal: what it tells of above the checkpoint. -/
theorem Tells.restored (tells : Tells crypto entries past)
    (refused : Recovery.RefusedBelow checkpoint entries) :
    entries.filterMap (restored crypto checkpoint) =
      (past.filter fun sealed => !belowCheckpoint checkpoint sealed.height).map
        mark := by
  induction entries generalizing past with
  | nil =>
    obtain rfl : past = [] := map_eq_nil_iff.mp tells.symm
    rfl
  | cons entry entries ih =>
    have rest : Recovery.RefusedBelow checkpoint entries := fun outcome mem =>
      refused outcome (mem_cons_of_mem _ mem)
    cases settles : entry.settles crypto with
    | none =>
      have silent : restored crypto checkpoint entry = none := by
        cases entry <;> first | rfl | cases settles
      rw [Tells, filterMap_cons_none settles] at tells
      rw [filterMap_cons_none silent]
      exact ih tells rest
    | some told =>
      rw [Tells, filterMap_cons_some settles] at tells
      obtain ⟨sealed, past, rfl, rfl, later⟩ := map_eq_cons_iff.mp tells.symm
      have own : restored crypto checkpoint entry =
          if belowCheckpoint checkpoint sealed.height then none else some sealed.mark :=
        restored_of_told settles fun outcome eq => refused outcome (eq ▸ mem_cons_self)
      cases below : belowCheckpoint checkpoint sealed.height with
      | true =>
        rw [below] at own
        rw [filterMap_cons_none own, filter_cons_of_neg (by simp [below])]
        exact ih later.symm rest
      | false =>
        rw [below] at own
        rw [filterMap_cons_some own, filter_cons_of_pos (by simp [below]), map_cons,
          ih later.symm rest]

end Tells

/-! ## What a crash leaves -/

variable {more : List Entry}

section Crash

variable {crypto : FrameCrypto} {entries entries' front : List Entry} {tail tail' records left : List Record}

theorem Entry.records_ne_nil (entry : Entry) : entry.records ≠ [] := by
  cases entry <;> simp [records, SettledBlock.records]

/-- What the journal held in whole at the checkpoint is there in whole. -/
theorem CutAt.front_survives (cut : CutAt entries entries' tail tail')
    (within : entries' <+: entries) (held : front <+: entries)
    (left_eq : left = ledgerRecords entries' ++ tail')
    (durable : (ledgerRecords front).length ≤ left.length) : front <+: entries' := by
  rcases prefix_or_prefix_of_prefix held within with done | ⟨rest, rfl⟩
  · exact done
  cases rest with
  | nil => simp
  | cons entry rest =>
    -- one more entry than survived would not fit
    have upTo : entries' ++ [entry] <+: entries :=
      List.IsPrefix.trans ⟨rest, by simp⟩ held
    have fits : entry.records.length ≤ tail'.length := by
      rw [left_eq] at durable
      simp only [ledgerRecords, flatMap_append, flatMap_cons, length_append] at durable
      omega
    rcases cut with rfl | ⟨next, after, start, proper⟩ | ⟨rfl, -⟩
    · exact absurd (length_eq_zero_iff.mp (Nat.le_zero.mp fits)) entry.records_ne_nil
    · have same : entries' ++ [entry] = entries' ++ [next] :=
        (prefix_of_prefix_length_le upTo after (by simp)).eq_of_length (by simp)
      obtain rfl : entry = next := by simpa using same
      exact absurd (start.eq_of_length (Nat.le_antisymm start.length_le fits)) proper
    · omega

/-- The heights whose seals a crash left are those the surviving entries tell of. -/
theorem survivors_eq {gone logged lost : List SealedBatch}
    (whole : Ledgered (entries' ++ more) tail records) (half : Ledgered entries' tail' left)
    (told : Tells crypto entries' logged) (rest : Tells crypto more lost) :
    survivors (gone ++ (logged ++ lost)) records left = gone ++ logged := by
  have sealed : (records.filterMap seals).length = (logged ++ lost).length := by
    rw [whole.records_eq, filterMap_append, (told.append rest).seals,
      filterMap_eq_nil_iff.mpr whole.inFlight.unsealed]
    simp
  have kept : (left.filterMap seals).length = logged.length := by
    rw [half.records_eq, filterMap_append, told.seals,
      filterMap_eq_nil_iff.mpr half.inFlight.unsealed]
    simp
  have count : (gone ++ (logged ++ lost)).length - ((logged ++ lost).length - logged.length)
      = (gone ++ logged).length := by
    simp only [length_append]
    omega
  rw [survivors, sealed, kept, count, ← append_assoc, take_left]

/-- The last block opened is the one in flight. -/
theorem lastOpened_inFlight {front body : List Record} {height : Nat} {frame : Bytes}
    {source : BlockSource} (plain : ∀ record ∈ body, record.marks = false) :
    lastOpened crypto (front ++ .block height frame source :: body)
      = some ⟨height, frameId crypto frame, false⟩ := by
  have silent : body.filterMap (opensBatch crypto) = [] :=
    filterMap_body plain fun record unmarked => by cases record <;> first | rfl | cases unmarked
  rw [lastOpened, filterMap_append, filterMap_cons_some (rfl : opensBatch crypto
    (.block height frame source) = some ⟨height, frameId crypto frame, false⟩), silent,
    getLast?_concat]

end Crash

/-! ## A life's invariant -/

/-- How a replica's past lies on its disk: what was pruned, what the journal held at the checkpoint, and
what it took since. -/
structure Chronicle (crypto : FrameCrypto) (m : Replica C O) (gone kept rest : List SealedBatch)
    (front late : List Entry) : Prop where
  remembers : Remembers (gone ++ kept ++ rest) m.node
  holds : Holds (front ++ late) m.node
  toldKept : Tells crypto front kept
  toldRest : Tells crypto late rest
  /-- What is left of the checkpoint's past tops what was pruned. -/
  anchored : gone = [] ∨ kept ≠ []
  window : m.manifest.appliedFrames = boundWindow ((gone ++ kept).map SealedBatch.mark)
  checkpoint : ∀ height, m.manifest.height = some height → Reached (gone ++ kept) height
  position : m.position = (ledgerRecords front).length
  previous : ∃ n, m.previous = (ledgerRecords (front.take n)).length

section Chronicle

variable {crypto : FrameCrypto} {realize : Recovery.Realize C O} {m m' : Replica C O}
  {gone kept rest : List SealedBatch} {front late : List Entry} {height : Nat} {checkpoint : Option Nat}
  {logged past : List SealedBatch} {frame : Bytes} {source : BlockSource} {node : OrderedNode C O Store}

section

variable (chronicle : Chronicle crypto m gone kept rest front late)
include chronicle

/-- An event extends what came since the checkpoint. -/
theorem Chronicle.step (event : LaneEvent)
    (survived : ∀ e, (laneStep (journaledLane crypto realize) event m.node).1 = .error e →
      e.stops = false) :
    ∃ more, Chronicle crypto { m with node := (laneStep (journaledLane crypto realize) event m.node).2 }
      gone kept (rest ++ settledIn (journaledLane crypto realize) m.node event) front (late ++ more) := by
  obtain ⟨more, -, tells, -, holds⟩ := laneStep_adds event chronicle.holds
    rfl
  have remembers := laneStep_remembers (L := journaledLane crypto realize) chronicle.remembers event
  refine ⟨more, ?_, ?_, chronicle.toldKept, chronicle.toldRest.append tells, chronicle.anchored,
    chronicle.window, chronicle.checkpoint, chronicle.position, chronicle.previous⟩
  · rw [← append_assoc]
    exact remembers
  · rw [← append_assoc]
    exact holds survived

/-- A checkpoint takes in what came since the last. -/
theorem Chronicle.checkpointed {manifest : Recovery.Manifest}
    (boundary : manifest.height = m.node.finalized.map (·.height))
    (window : manifest.appliedFrames = boundWindow m.node.replayWindow) :
    Chronicle crypto (m.checkpoint manifest) gone (kept ++ rest) [] (front ++ late) [] := by
  have past : gone ++ (kept ++ rest) = gone ++ kept ++ rest := (append_assoc ..).symm
  refine ⟨?_, ?_, chronicle.toldKept.append chronicle.toldRest, rfl, ?_, ?_, fun height eq => ?_, ?_, ?_⟩
  · rw [append_nil, past]
    exact chronicle.remembers.of_same rfl rfl rfl
  · rw [append_nil]
    exact ⟨chronicle.holds.records, chronicle.holds.increasing, chronicle.holds.floored⟩
  · exact chronicle.anchored.imp id fun some none => some (append_eq_nil_iff.mp none).1
  · rw [past]
    change manifest.appliedFrames = _
    rw [window, chronicle.remembers.window, boundWindow_boundWindow]
  · rw [past]
    change manifest.height = _ at eq
    rw [boundary] at eq
    obtain ⟨block, finalized, rfl⟩ := Option.map_eq_some_iff.mp eq
    exact chronicle.remembers.finalized block finalized
  · exact congrArg length chronicle.holds.records
  · refine ⟨front.length, ?_⟩
    rw [take_left]
    exact chronicle.position

/-- A prune forgets entries of the journal, and nothing else. -/
theorem Chronicle.pruned
    (sealed : ((m.records.drop m.previous).take (m.position - m.previous)).filterMap seals ≠ []) :
    ∃ dropped kept' front', kept = dropped ++ kept' ∧
      Chronicle crypto m.prune (gone ++ dropped) kept' rest front' late := by
  obtain ⟨n, previous⟩ := chronicle.previous
  have split : front.take n ++ front.drop n = front := take_append_drop n front
  have told := chronicle.toldKept
  rw [← split] at told
  obtain ⟨dropped, kept', rfl, -, told'⟩ := told.split
  have records : m.records.drop m.previous = ledgerRecords (front.drop n ++ late) := by
    have whole : m.records = ledgerRecords (front.take n) ++ ledgerRecords (front.drop n ++ late) := by
      rw [← ledgerRecords_append, ← append_assoc, split]
      exact chronicle.holds.records
    rw [whole, previous, drop_left]
  have position : m.position - m.previous = (ledgerRecords (front.drop n)).length := by
    have whole := congrArg (length ∘ ledgerRecords) split
    simp only [Function.comp, ledgerRecords_append, length_append] at whole
    rw [chronicle.position]
    omega
  -- a seal between the checkpoints is left
  have held : kept' ≠ [] := by
    rintro rfl
    rw [records, position, ledgerRecords_append, take_left] at sealed
    exact sealed told'.seals
  have fewer : settledHeights (front.drop n ++ late) <:+ settledHeights (front ++ late) := by
    refine ⟨settledHeights (front.take n), ?_⟩
    rw [settledHeights, settledHeights, ← filterMap_append, ← append_assoc, split]
    rfl
  have past : gone ++ dropped ++ kept' = gone ++ (dropped ++ kept') := append_assoc ..
  refine ⟨dropped, kept', front.drop n, rfl, ?_, ?_, told', chronicle.toldRest, .inr held, ?_, ?_, position,
    0, by simp [Replica.prune, ledgerRecords]⟩
  · rw [past]
    exact chronicle.remembers.of_same rfl rfl rfl
  · exact ⟨records, chronicle.holds.increasing.sublist fewer.sublist,
      fun height mem => chronicle.holds.floored height (fewer.subset mem)⟩
  · rw [past]
    exact chronicle.window
  · rw [past]
    exact chronicle.checkpoint

/-- What is left of the checkpoint's past tops what was pruned. -/
theorem Chronicle.topped : ∀ sealed ∈ gone, ∃ higher ∈ kept, sealed.height < higher.height := by
  intro sealed mem
  rcases chronicle.anchored with rfl | some
  · cases mem
  obtain ⟨higher, held⟩ := exists_mem_of_ne_nil kept some
  have increasing := chronicle.remembers.increasing
  rw [append_assoc, pairwise_append] at increasing
  exact ⟨higher, held, increasing.2.2 sealed mem higher (mem_append_left _ held)⟩

/-- The checkpoint's height is reached by what the journal held at the checkpoint. -/
theorem Chronicle.reached (boundary : m.manifest.height = some height) : Reached kept height := by
  obtain ⟨sealed, mem, le⟩ := chronicle.checkpoint height boundary
  rcases mem_append.mp mem with mem | mem
  · obtain ⟨higher, held, lt⟩ := chronicle.topped sealed mem
    exact ⟨higher, held, by omega⟩
  · exact ⟨sealed, mem, le⟩

/-- A height above all that was kept is above the checkpoint. -/
theorem Chronicle.above (higher : ∀ sealed ∈ kept, sealed.height < height) :
    belowCheckpoint m.manifest.height height = false := by
  cases boundary : m.manifest.height with
  | none => rfl
  | some checkpoint =>
    obtain ⟨sealed, mem, le⟩ := chronicle.reached boundary
    have lt := higher sealed mem
    simp only [belowCheckpoint, Option.any_some, decide_eq_false_iff_not]
    omega

end

/-- The tip recovery comes to: the last height told of above the checkpoint, or the checkpoint. -/
theorem tip_reaches {tip : Option Nat} (increasing : logged.Pairwise (·.height < ·.height))
    (ends : tip = ((((logged.filter fun sealed =>
      !belowCheckpoint checkpoint sealed.height).map mark).getLast?.map
        (·.1)).or checkpoint)) : (∀ sealed ∈ logged, tip.any (sealed.height ≤ ·)) ∧
    ∀ height, tip = some height → Reached logged height ∨ checkpoint = some height := by
  rw [getLast?_map] at ends
  generalize above_eq : (logged.filter fun sealed =>
    !belowCheckpoint checkpoint sealed.height) = above at ends
  have mem_above : ∀ sealed, sealed ∈ above ↔ sealed ∈ logged ∧
      belowCheckpoint checkpoint sealed.height = false := by
    intro sealed
    rw [← above_eq, mem_filter, Bool.not_eq_true']
  cases last : above.getLast? with
  | none =>
    obtain rfl : tip = checkpoint := by rw [ends, last]; rfl
    have none_above : above = [] := getLast?_eq_none_iff.mp last
    refine ⟨fun sealed mem => ?_, fun height eq => .inr eq⟩
    cases below : belowCheckpoint tip sealed.height with
    | true => exact below
    | false =>
      have := (mem_above sealed).mpr ⟨mem, below⟩
      rw [none_above] at this
      cases this
  | some top =>
    obtain rfl : tip = some top.height := by rw [ends, last]; rfl
    obtain ⟨init, split⟩ := getLast?_eq_some_iff.mp last
    have top_above : top ∈ above := by rw [split]; simp
    obtain ⟨top_mem, high⟩ := (mem_above top).mp top_above
    refine ⟨fun sealed mem => ?_, ?_⟩
    · suffices le : sealed.height ≤ top.height by simpa using le
      cases below : belowCheckpoint checkpoint sealed.height with
      | true =>
        cases checkpoint with
        | none => cases below
        | some height =>
          have le : sealed.height ≤ height := by simpa [belowCheckpoint] using below
          have lt : height < top.height := by simpa [belowCheckpoint] using high
          omega
      | false =>
        have held := (mem_above sealed).mpr ⟨mem, below⟩
        have sorted : above.Pairwise (·.height < ·.height) := by
          rw [← above_eq]
          exact increasing.sublist filter_sublist
        rw [split] at held sorted
        rcases mem_append.mp held with early | late
        · exact Nat.le_of_lt ((pairwise_append.mp sorted).2.2 sealed early top (by simp))
        · rw [mem_singleton.mp late]
    · rintro height ⟨⟩
      exact .inl ⟨top, top_mem, le_refl _⟩

theorem belowCheckpoint_mono {low high : Nat} (lt : low < high)
    (above : belowCheckpoint checkpoint low = false) :
    belowCheckpoint checkpoint high = false := by
  cases checkpoint with
  | none => rfl
  | some height =>
    have : height < low := by simpa [belowCheckpoint] using above
    simp only [belowCheckpoint, Option.any_some, decide_eq_false_iff_not]
    omega

/-- The checkpoint's window, and what the journal tells of above the checkpoint, make the window of the
whole past. -/
theorem restored_window (increasing : (gone ++ kept ++ rest).Pairwise (·.height < ·.height))
    (since : ∀ sealed ∈ rest, belowCheckpoint checkpoint sealed.height = false) :
    restoreWindow (boundWindow ((gone ++ kept).map mark) ++
      ((kept ++ rest).filter fun sealed =>
        !belowCheckpoint checkpoint sealed.height).map mark)
      = boundWindow ((gone ++ kept ++ rest).map mark) := by
  let above : SealedBatch → Bool := fun sealed => !belowCheckpoint checkpoint sealed.height
  have upward : ∀ a b : SealedBatch, above a → a.height < b.height → above b := by
    intro a b high lt
    have := belowCheckpoint_mono lt (by simpa [above] using high)
    simpa [above] using this
  have logged : (kept ++ rest).Pairwise (·.height < ·.height) := by
    rw [append_assoc, pairwise_append] at increasing
    exact increasing.2.1
  have ending : (kept ++ rest).filter above <:+ gone ++ kept ++ rest := by
    rw [append_assoc]
    exact (filter_suffix upward logged).trans (suffix_append _ _)
  have whole : rest <:+ (kept ++ rest).filter above := by
    have all : rest.filter above = rest :=
      filter_eq_self.mpr fun sealed mem => by simp [above, since sealed mem]
    rw [filter_append, all]
    exact suffix_append _ _
  have split : (gone ++ kept ++ rest).map mark
      = (gone ++ kept).map mark ++ rest.map mark := map_append
  rw [split]
  refine restoreWindow_merge ?_ ?_ (whole.map mark) <;> rw [← map_append]
  · exact pairwise_map.mpr increasing
  · exact ending.map mark

variable {host : HostState C}

/-- A recovery that restores a ledger resumes the chronicle. -/
theorem Chronicle.resumed (chronicle : Chronicle crypto m gone kept rest front late)
    {rest' : List SealedBatch} {late' : List Entry} (told : Tells crypto late' rest')
    (screened : Screened (gone ++ kept ++ rest'))
    (increasing : (gone ++ kept ++ rest').Pairwise (·.height < ·.height))
    {recovered : Recovery.Recovered} {store : Store} {code : Host C O}
    (refused : Recovery.RefusedBelow m.manifest.height (front ++ late'))
    (ledger : Ledgered (front ++ late') [] store.journal.records)
    (frames : recovered.appliedFrames = restoreWindow (m.manifest.appliedFrames ++
      (front ++ late').filterMap (restored crypto m.manifest.height)))
    (tip : recovered.height = (((front ++ late').filterMap
      (restored crypto m.manifest.height)).getLast?.map (·.1)).or m.manifest.height) :
    Chronicle crypto (m.bootFrom recovered code host store) gone kept rest' front late' := by
  have tells := chronicle.toldKept.append told
  rw [tells.restored refused] at frames tip
  have logged : (kept ++ rest').Pairwise (·.height < ·.height) := by
    rw [append_assoc, pairwise_append] at increasing
    exact increasing.2.1
  obtain ⟨reaches, reached⟩ := tip_reaches logged tip
  have floor : ∀ sealed ∈ gone ++ kept ++ rest', recovered.height.any (sealed.height ≤ ·) := by
    intro sealed mem
    rw [append_assoc] at mem
    rcases mem_append.mp mem with mem | mem
    · obtain ⟨higher, held, lt⟩ := chronicle.topped sealed mem
      exact floor_mono lt.le (reaches higher (mem_append_left _ held))
    · exact reaches sealed mem
  have node_floor : (m.bootFrom recovered code host store).node.appliedFloor = recovered.height := by
    simp only [Replica.bootFrom, resume, Option.map_map]
    exact Option.map_id'
  refine ⟨⟨?_, screened, increasing, ?_, fun block eq => ?_⟩, ⟨?_, ledger.increasing, ?_⟩,
    chronicle.toldKept, told, chronicle.anchored, chronicle.window, chronicle.checkpoint,
    chronicle.position, chronicle.previous⟩
  · -- the window: the checkpoint's, merged with the journal's end
    have since : ∀ sealed ∈ rest',
        belowCheckpoint m.manifest.height sealed.height = false := fun sealed mem =>
      chronicle.above fun earlier held => (pairwise_append.mp logged).2.2 earlier held sealed mem
    simp only [Replica.bootFrom, seedReplayWindow, resume, nil_append]
    rw [frames, chronicle.window, restored_window increasing since, boundWindow_boundWindow]
  · rw [node_floor]
    exact floor
  · obtain ⟨height, tip, rfl⟩ := Option.map_eq_some_iff.mp eq
    rcases reached height tip with reached | boundary
    · rw [append_assoc]
      exact reached.mono (subset_append_right _ _)
    · exact (chronicle.checkpoint height boundary).mono (subset_append_left _ _)
  · exact ledger.records_eq.trans (append_nil _)
  · rw [node_floor, tells.heights]
    intro height mem
    obtain ⟨sealed, held, rfl⟩ := mem_map.mp mem
    exact reaches sealed held

/-- An entry whose records start with a block is that block. -/
theorem Entry.settles_of_start {entry : Entry} {body : List Record}
    (start : .block height frame source :: body <+: entry.records) :
    entry.settles crypto = some (height, some (frameId crypto frame)) := by
  cases entry with
  | block settled =>
    obtain ⟨eq, -⟩ := cons_prefix_cons.mp start
    cases eq
    rfl
  | _ =>
    obtain ⟨eq, -⟩ := cons_prefix_cons.mp start
    cases eq

/-- The block a crash left in flight repeats no batch settled before it. -/
theorem CutAt.unseen {entries lost : List Entry} {tail body : List Record}
    {forgotten : List SealedBatch}
    (cut : CutAt (entries ++ lost) entries tail (.block height frame source :: body))
    (told : Tells crypto lost forgotten) (remembers : Remembers (past ++ forgotten) node)
    (unseen : Unseen crypto tail node) :
    (boundWindow (past.map mark)).any (·.2 = frameId crypto frame) = false := by
  rcases cut with none | ⟨next, within, start, -⟩ | ⟨whole, start⟩
  · cases none
  · -- the block was settled once, so it was screened then
    obtain ⟨lost, rfl⟩ : [next] <+: lost := (prefix_append_right_inj entries).mp within
    have settles : next.settles crypto = _ := settles_of_start start
    rw [Tells, singleton_append, filterMap_cons_some settles] at told
    obtain ⟨sealed, forgotten, rfl, same, -⟩ := map_eq_cons_iff.mp told.symm
    have screened := remembers.screened past sealed forgotten rfl
    obtain ⟨_, batch, refused⟩ := sealed
    cases refused <;> simp [SealedBatch.told] at same
    rw [← same.2]
    exact screened.symm
  · obtain rfl : lost = [] := self_eq_append_right.mp whole
    obtain rfl : forgotten = [] := map_eq_nil_iff.mp told.symm
    have := unseen height frame source (start.subset mem_cons_self)
    rwa [remembers.window, append_nil] at this

/-- What was settled lies below the block in flight. -/
theorem Ledgered.told_below {entries : List Entry} {tail records : List Record}
    (ledger : Ledgered entries tail records) (told : Tells crypto entries logged)
    (opens : .block height frame source ∈ tail) : ∀ sealed ∈ logged, sealed.height < height := by
  intro sealed mem
  rcases ledger.inFlight.shape with rfl | ⟨_, _, _, body, rfl, plain, above⟩
  · cases opens
  have held : sealed.height ∈ settledHeights entries := by
    rw [told.heights]
    exact mem_map_of_mem mem
  obtain ⟨entry, entry_mem, own⟩ := mem_filterMap.mp held
  rcases mem_cons.mp opens with eq | later
  · cases eq
    exact above entry entry_mem _ own
  · cases (plain _ later).1

/-- A crash and a recovery: the journal's end is lost, and the block in flight settles. -/
theorem Chronicle.restarted (chronicle : Chronicle crypto m gone kept rest front late)
    {newest : List SealedBatch} (tells : Tells crypto more newest)
    (stopped : Stopped crypto (front ++ late ++ more) node)
    (remembers : Remembers (gone ++ kept ++ rest ++ newest) node) {left : List Record}
    {code : Host C O} {rolled : Bool} (crash : left <+: node.sink.journal.records)
    (durable : m.position ≤ left.length)
    (reboots : m.reboot crypto realize left code host = .ok (rolled, m')) : ∃ rest' late',
      survivors (gone ++ kept ++ rest ++ newest) node.sink.journal.records left ++
        (if rolled then (lastOpened crypto left).toList else []) = gone ++ kept ++ rest' ∧
      Chronicle crypto m' gone kept rest' front late' := by
  obtain ⟨tail, whole, unseen⟩ := stopped
  -- what survived holds what the checkpoint covers
  obtain ⟨entries', tail', within, half, cut⟩ := whole.crash_parts crash
  obtain ⟨late', rfl⟩ : front <+: entries' :=
    cut.front_survives within ⟨late ++ more, by rw [append_assoc]⟩ half.records_eq
      (chronicle.position ▸ durable)
  obtain ⟨lost, eq⟩ := within
  have later : late' ++ lost = late ++ more := by simpa using eq
  obtain ⟨rest', forgotten, past, told, toldLost⟩ :=
    (later ▸ chronicle.toldRest.append tells).split
  have past_eq : gone ++ kept ++ rest ++ newest = gone ++ kept ++ rest' ++ forgotten := by
    rw [append_assoc _ rest, past, ← append_assoc]
  rw [past_eq] at remembers
  rw [← eq] at whole cut
  have logged := chronicle.toldKept.append told
  have survived : survivors (gone ++ kept ++ rest ++ newest) node.sink.journal.records left
      = gone ++ kept ++ rest' := by
    rw [past_eq, append_assoc gone kept, append_assoc gone, survivors_eq whole half logged toldLost]
  have screened : Screened (gone ++ kept ++ rest') :=
    remembers.screened.of_prefix (prefix_append _ _)
  have increasing := (pairwise_append.mp remembers.increasing).1
  rw [survived]
  have fresh : ∀ height frame source, .block height frame source ∈ tail' →
      belowCheckpoint m.manifest.height height = false := fun height frame source opens =>
    chronicle.above fun sealed mem => half.told_below logged opens sealed (mem_append_left _ mem)
  simp only [Replica.reboot] at reboots
  split at reboots
  · cases reboots
  rename_i recovered code' host' store' recovers
  cases reboots
  obtain ⟨added, rolls, restored⟩ := recover_restores half fresh recovers
  generalize recovered.rolledForward = rolled at rolls
  cases rolls with
  | idle =>
    have ledger := restored.ledger
    have frames := restored.frames
    have tip := restored.tip
    rw [append_nil] at ledger frames tip
    exact ⟨rest', late', by simp,
      chronicle.resumed told screened increasing restored.refused ledger frames tip⟩
  | forward settled source body =>
    let rolled : SealedBatch := ⟨settled.outcome.height, frameId crypto settled.frame, false⟩
    have opens := mem_cons_self (a := block settled.outcome.height settled.frame source) (l := body)
    have opened : lastOpened crypto left = some rolled := by
      rcases half.inFlight.shape with none | ⟨_, _, _, _, eq, plain, -⟩
      · cases none
      cases eq
      rw [half.records_eq]
      exact lastOpened_inFlight fun record mem => (plain record mem).1
    have below := half.told_below logged opens
    have topped : ∀ sealed ∈ gone ++ kept ++ rest', sealed.height < rolled.height := by
      intro sealed mem
      rw [append_assoc] at mem
      rcases mem_append.mp mem with mem | mem
      · obtain ⟨higher, held, lt⟩ := chronicle.topped sealed mem
        exact lt.trans (below higher (mem_append_left _ held))
      · exact below sealed mem
    have screened' : Screened (gone ++ kept ++ (rest' ++ [rolled])) := by
      rw [← append_assoc]
      exact screened.snoc (cut.unseen toldLost remembers unseen).symm
    have increasing' : (gone ++ kept ++ (rest' ++ [rolled])).Pairwise (·.height < ·.height) := by
      rw [← append_assoc]
      exact pairwise_append.mpr ⟨increasing, pairwise_singleton _ _, fun sealed mem other last =>
        mem_singleton.mp last ▸ topped sealed mem⟩
    have refused : Recovery.RefusedBelow m.manifest.height (front ++ (late' ++ [.block settled])) := by
      rw [← append_assoc]
      intro outcome mem
      rcases mem_append.mp mem with mem | mem
      · exact restored.refused outcome mem
      · cases mem_singleton.mp mem
    have ledger := restored.ledger
    have frames := restored.frames
    have tip := restored.tip
    rw [append_assoc] at ledger frames tip
    refine ⟨rest' ++ [rolled], late' ++ [.block settled], by simp [opened], ?_⟩
    have toldRolled : Tells crypto [.block settled] [rolled] := rfl
    exact chronicle.resumed (told.append toldRolled) screened' increasing' refused ledger frames tip

/-- Every life keeps its chronicle. -/
theorem life_chronicle (life : Life crypto realize m past) :
    ∃ gone kept rest front late, past = gone ++ kept ++ rest ∧
      Chronicle crypto m gone kept rest front late := by
  induction life with
  | boot code host viewBase manifest unsettled empty =>
    refine ⟨[], [], [], [], [], rfl, ?_, ?_, rfl, rfl, .inl rfl, ?_, fun height eq => ?_, rfl, 0, rfl⟩
    · have screened : Screened [] := fun before settled after eq => by simp at eq
      refine ⟨rfl, screened, List.Pairwise.nil, fun settled mem => ?_, fun block eq => ?_⟩
      · cases mem
      · cases eq
    · exact ⟨rfl, List.Pairwise.nil, fun height mem => by cases mem⟩
    · simp [empty]
    · cases unsettled.symm.trans eq
  | step event life survived ih =>
    obtain ⟨gone, kept, rest, front, late, rfl, chronicle⟩ := ih
    obtain ⟨more, stepped⟩ := chronicle.step event survived
    exact ⟨gone, kept, _, front, _, append_assoc .., stepped⟩
  | checkpoint manifest life boundary window ih =>
    obtain ⟨gone, kept, rest, front, late, rfl, chronicle⟩ := ih
    exact ⟨gone, _, [], _, [], by simp, chronicle.checkpointed boundary window⟩
  | prune life sealed ih =>
    obtain ⟨gone, kept, rest, front, late, rfl, chronicle⟩ := ih
    obtain ⟨dropped, kept', front', rfl, pruned⟩ := chronicle.pruned sealed
    exact ⟨_, kept', rest, front', late, by simp, pruned⟩
  | restart event left code host life crash durable reboots ih =>
    obtain ⟨gone, kept, rest, front, late, rfl, chronicle⟩ := ih
    obtain ⟨more, -, tells, stopped, -⟩ := laneStep_adds event chronicle.holds
      rfl
    obtain ⟨rest', late', past, restarted⟩ := chronicle.restarted tells stopped
      (laneStep_remembers chronicle.remembers event) crash durable reboots
    exact ⟨gone, kept, rest', front, late', past, restarted⟩

/-- **However a node lived, it remembers what it settled**: its window holds the newest batches, and each
of them was refused exactly if it was among the newest before it. -/
theorem life_remembers (life : Life crypto realize m past) : Remembers past m.node := by
  obtain ⟨gone, kept, rest, front, late, rfl, chronicle⟩ := life_chronicle life
  exact chronicle.remembers

end Chronicle

/-! ## Uniform refusal -/

/-- Is the frame a replay to the node? -/
def OrderedNode.replays (crypto : FrameCrypto) (node : OrderedNode C O Store) (frame : Bytes) : Bool :=
  node.replayWindow.any (·.2 = frameId crypto frame)

section Uniform

variable {crypto : FrameCrypto} {past other : List SealedBatch}

/-- A replayed batch is not executed. -/
theorem deliver_replayed {realize : Recovery.Realize C O} {node : OrderedNode C O Store} {frame : Bytes}
    (replays : node.replays crypto frame) (view : Nat) :
    (deliver (journaledLane crypto realize) view frame node).2.host = node.host := by
  unfold deliver
  simp only
  split
  · rfl
  split
  · rfl
  split
  · unfold discard
    split <;> rfl
  split
  · simp only [refuseReplayed, settleBlock]
    rcases (journaledLane crypto realize).sink.sealBlock _ _ with ⟨_ | _, j⟩ <;> rfl
  · exact absurd replays ‹_›

/-- What was settled decides what was refused. -/
theorem Screened.ext (screened : Screened past) (screened' : Screened other)
    (same : past.map mark = other.map mark) : past = other := by
  induction past using reverseRecOn generalizing other with
  | nil => exact (map_eq_nil_iff.mp same.symm).symm
  | append_singleton past last ih =>
    rw [map_append] at same
    obtain ⟨other, rest, rfl, early, late⟩ := map_eq_append_iff.mp same.symm
    obtain ⟨last', rfl, mark⟩ := map_eq_singleton_iff.mp late
    obtain rfl := ih (screened.of_prefix (prefix_append _ _))
      (screened'.of_prefix (prefix_append _ _)) early.symm
    have refused := screened past last [] rfl
    have refused' := screened' past last' [] rfl
    obtain ⟨height, batch, flag⟩ := last
    cases mark
    cases refused.trans refused'.symm
    rfl

/-- Of two settled batches alike and close to each other, the second was refused. -/
theorem Screened.refused_near (screened : Screened past) {before between after : List SealedBatch}
    {first second : SealedBatch} (split : past = before ++ first :: between ++ second :: after)
    (same : first.batch = second.batch) (near : between.length + 1 ≤ replayWindowHeights) :
    second.refused = true := by
  rw [screened _ second after split, any_eq_true]
  refine ⟨first.mark, ?_, decide_eq_true same⟩
  have ends : (first :: between).map mark <:+
      boundWindow ((before ++ first :: between).map mark) := by
    refine suffix_rtake ?_ (by simpa using near)
    rw [map_append]
    exact suffix_append _ _
  exact ends.subset mem_cons_self

/-- **Replay refusal is uniform.** However two nodes lived, if they settled the same batches at the same
heights then their windows hold the same batches, the newest ones in order; they agree on what is a
replay, now and all along; a replay is not executed; and of two alike batches no further apart than the
window the second was refused. -/
theorem replay_uniform {realize realize' : Recovery.Realize C O} {m m' : Replica C O}
    (life : Life crypto realize m past) (life' : Life crypto realize' m' other)
    (same : past.map SealedBatch.mark = other.map SealedBatch.mark) :
    m.node.replayWindow = boundWindow (past.map SealedBatch.mark) ∧
    m'.node.replayWindow = m.node.replayWindow ∧
    (∀ frame, m'.node.replays crypto frame = m.node.replays crypto frame) ∧
    (∀ frame, m.node.replays crypto frame → ∀ view,
      (deliver (journaledLane crypto realize) view frame m.node).2.host = m.node.host) ∧
    past = other ∧
    ∀ before first between second after, past = before ++ first :: between ++ second :: after →
      first.batch = second.batch → between.length + 1 ≤ replayWindowHeights → second.refused = true := by
  have remembers := life_remembers life
  have remembers' := life_remembers life'
  have windows : m'.node.replayWindow = m.node.replayWindow := by
    rw [remembers'.window, remembers.window, same]
  refine ⟨remembers.window, windows, fun frame => ?_, fun frame replays view =>
    deliver_replayed replays view, remembers.screened.ext remembers'.screened same,
    fun before first between second after split alike near =>
      remembers.screened.refused_near split alike near⟩
  rw [OrderedNode.replays, windows, OrderedNode.replays]

end Uniform

/-- A tally node at its birth. -/
def tallyBirth : Replica Nat Nat := ⟨tallyNode, ⟨none, 0, 0, [], [], [], [], []⟩, 0, 0⟩

/-- A tally node after an event. -/
def Replica.after (m : Replica Nat Nat) (event : LaneEvent) : Replica Nat Nat :=
  { m with node := (laneStep (journaledLane tallyCrypto tallyRealize) event m.node).2 }

/-- A tally node's manifest. -/
def Replica.capture (m : Replica Nat Nat) : Recovery.Manifest where
  height := m.node.finalized.map (·.height)
  epoch := 0
  viewBase := m.node.viewBase
  participants := []
  residents := []
  rootHash := m.node.rootHash
  roots := moduleRoots m.node.code m.node.host
  appliedFrames := boundWindow m.node.replayWindow

/-- A tally node after a checkpoint. -/
def Replica.captured (m : Replica Nat Nat) : Replica Nat Nat := m.checkpoint m.capture

/-- Three heights, the last a refused replay, two checkpoints, a prune, and a cutover to the next epoch. -/
def tallyPruned : Replica Nat Nat :=
  ((tallyBirth.after (.drain [(1, encodeBatch [])])).captured.after
    (.drain [(2, encodeBatch [[]]), (3, encodeBatch [])])).captured.prune.after (.cutover 1 3 [] [])

/-- What a crash before the fourth height's seal leaves. -/
def tallyLeft : List Record := (tallyPruned.after (.drain [(1, encodeBatch [[], []])])).records.dropLast

/-- The node rebooted on it. -/
def tallyReborn : Except RecoveryError (Bool × Replica Nat Nat) :=
  tallyPruned.reboot tallyCrypto tallyRealize tallyLeft tallyPruned.node.code tallyPruned.node.host

variable {m : Replica Nat Nat}

theorem Life.after (life : Life tallyCrypto tallyRealize m past) (event : LaneEvent)
    (ok : (laneStep (journaledLane tallyCrypto tallyRealize) event m.node).1.isOk) :
    Life tallyCrypto tallyRealize (m.after event)
      (past ++ settledIn (journaledLane tallyCrypto tallyRealize) m.node event) := by
  refine .step event life fun e failed => ?_
  rw [failed] at ok
  cases ok

theorem Life.captured (life : Life tallyCrypto tallyRealize m past) :
    Life tallyCrypto tallyRealize m.captured past := by
  refine .checkpoint m.capture life ?_ ?_
  · simp only [Replica.capture]
  · simp only [Replica.capture]

theorem replay_uniform_tally :
    ∃ reborn : Replica Nat Nat, (∃ past, Life tallyCrypto tallyRealize reborn past) ∧
      tallyReborn = .ok (true, reborn) ∧
      reborn.node.replayWindow = (tallyBirth.after (.drain [(1, encodeBatch []), (2, encodeBatch [[]]),
        (3, encodeBatch []), (4, encodeBatch [[], []])])).node.replayWindow := by
  have birth : Life tallyCrypto tallyRealize tallyBirth [] := .boot _ _ _ _ rfl rfl
  have straight := birth.after (.drain [(1, encodeBatch []), (2, encodeBatch [[]]), (3, encodeBatch []),
    (4, encodeBatch [[], []])]) (by decide +kernel)
  have first := (birth.after (.drain [(1, encodeBatch [])]) (by decide +kernel)).captured
  have second := (first.after (.drain [(2, encodeBatch [[]]), (3, encodeBatch [])]) (by decide +kernel)).captured
  have pruned : Life tallyCrypto tallyRealize tallyPruned _ :=
    (second.prune (by decide +kernel)).after (.cutover 1 3 [] []) (by decide +kernel)
  have rolls : tallyReborn.toOption.map (·.1) = some true := by decide +kernel
  generalize rebooted : tallyReborn = outcome at rolls
  rcases outcome with _ | ⟨rolled, reborn⟩
  · cases rolls
  obtain rfl : rolled = true := by simpa [Except.toOption] using rolls
  have life := Life.restart (.drain [(1, encodeBatch [[], []])]) tallyLeft _ _ pruned
    (List.dropLast_prefix _) (by decide +kernel) rebooted
  exact ⟨reborn, ⟨_, life⟩, rfl, (replay_uniform straight life (by decide +kernel)).2.1⟩

end Ducktape
