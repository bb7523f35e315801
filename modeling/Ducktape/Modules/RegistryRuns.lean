import Mathlib.Data.String.Basic
import Ducktape.Host.Isolation
import Ducktape.Modules.Registry

/-! # Runs of the code registry

`Move` lists what each operation can do to the entry of the module it names, and `ends_handleMsg` says that
an accepted operation is such a move and nothing else. From it, a swap armed in the committed state stays
armed through the whole block (`Armed.move`) and any other module keeps its history (`Drifted.move`),
whatever else the block does.

`advance_activates_armed`: the boundary tick is accepted and activates exactly the swaps armed in the state
the previous block committed. -/

namespace Ducktape.Modules

open Lib Handler Option ModuleEntry List StagedStore

/-! ## Stores -/

section stores

variable (s : Store) (moduleId other : String) (table : List LaneRecord) (given : ModuleEntry)

@[simp] theorem entry_put_mod :
    entry (put s (.mod moduleId) given) other = if other = moduleId then some given else entry s other := by
  unfold entry
  split
  · rename_i same
    rw [same, put_self]
  · rename_i apart
    rw [put_of_ne s (by simpa using apart)]

@[simp] theorem entry_drop_mod :
    entry (drop s (.mod moduleId)) other = if other = moduleId then none else entry s other := by
  unfold entry
  split
  · rename_i same
    rw [same, Lib.drop_self]
  · rename_i apart
    rw [drop_of_ne s (by simpa using apart)]

variable (ids : List String)

@[simp] theorem entry_put_modules : entry (put s .modules ids) other = entry s other := by
  rw [entry, put_of_ne s (by simp), entry]

@[simp] theorem entry_put_lanes : entry (put s .lanes table) other = entry s other := by
  rw [entry, put_of_ne s (by simp), entry]

@[simp] theorem entry_drop_modules : entry (drop s .modules) other = entry s other := by
  rw [entry, drop_of_ne s (by simp), entry]

@[simp] theorem roster_put_mod : roster (put s (.mod moduleId) given) = roster s := by
  rw [roster, put_of_ne s (by simp), roster]

@[simp] theorem roster_drop_mod : roster (drop s (.mod moduleId)) = roster s := by
  rw [roster, drop_of_ne s (by simp), roster]

@[simp] theorem roster_put_lanes : roster (put s .lanes table) = roster s := by
  rw [roster, put_of_ne s (by simp), roster]

@[simp] theorem roster_put_modules : roster (put s .modules ids) = ids := by
  rw [roster, put_self, getD_some]

@[simp] theorem roster_drop_modules : roster (drop s .modules) = [] := by
  rw [roster, Lib.drop_self, getD_none]

@[simp] theorem laneTable_put_mod : laneTable (put s (.mod moduleId) given) = laneTable s := by
  rw [laneTable, put_of_ne s (by simp), laneTable]

@[simp] theorem laneTable_drop_mod : laneTable (drop s (.mod moduleId)) = laneTable s := by
  rw [laneTable, drop_of_ne s (by simp), laneTable]

@[simp] theorem laneTable_put_modules : laneTable (put s .modules ids) = laneTable s := by
  rw [laneTable, put_of_ne s (by simp), laneTable]

@[simp] theorem laneTable_drop_modules : laneTable (drop s .modules) = laneTable s := by
  rw [laneTable, drop_of_ne s (by simp), laneTable]

@[simp] theorem laneTable_put_lanes : laneTable (put s .lanes table) = table := by
  rw [laneTable, put_self, getD_some]

end stores

/-- Every hash of the entry has its width. -/
structure ModuleEntry.Wide (given : ModuleEntry) : Prop where
  history : ∀ act ∈ given.history, act.codeHash.length = codeHashLen
  pending : ∀ swap, given.pending = some swap → swap.codeHash.length = codeHashLen

/-- The roster is sorted and lists the modules that have an entry; recorded hashes have their width. -/
structure Sound (s : Store) : Prop where
  sorted : (roster s).Pairwise (· < ·)
  listed : ∀ moduleId, moduleId ∈ roster s ↔ (entry s moduleId).isSome
  wide : ∀ moduleId given, entry s moduleId = some given → given.Wide

variable {moduleId : String}

variable {s : Store} {given : ModuleEntry}

/-- A module that runs no code was never activated. -/
theorem Sound.history_nil (sound : Sound s) (held : entry s moduleId = some given)
    (codeless : given.activeCodeHash = []) :
    given.history = [] := by
  rw [activeCodeHash] at codeless
  cases last : given.history.getLast? with
  | none => exact getLast?_eq_none_iff.mp last
  | some act =>
    have width := (sound.wide moduleId given held).history act (mem_of_getLast? last)
    rw [last, map_some, getD_some] at codeless
    rw [codeless] at width
    cases width

/-! ## What an operation does to an entry -/

/-- What an operation at `height` can do to the entry of the module it names. -/
inductive Move (height : Nat) : ModulesMsg → String → Option ModuleEntry → Option ModuleEntry → Prop
  | register (moduleId : String) (kind : Kind) (codeHash : Bytes) (lanes : List LaneDecl)
      (width : codeHash.length = codeHashLen) :
      Move height (.registerModule moduleId kind codeHash lanes) moduleId none
        (some ⟨kind, none, [⟨height, codeHash⟩]⟩)
  | schedule (moduleId name : String) (floor : Nat) (codeHash : Bytes) (given : ModuleEntry)
      (width : codeHash.length = codeHashLen)
      (free : ∀ old, given.pending = some old → old.staleAt height = true) :
      Move height (.scheduleSwap name moduleId floor codeHash) moduleId (some given)
        (some { given with pending := some (scheduled name floor codeHash) })
  | announce (moduleId name : String) (kind : Kind) (floor : Nat) (codeHash : Bytes) (lanes : List LaneDecl)
      (width : codeHash.length = codeHashLen) :
      Move height (.scheduleRegister name moduleId kind floor codeHash lanes) moduleId none
        (some ⟨kind, some (scheduled name floor codeHash), []⟩)
  | cancel (moduleId name : String) (given : ModuleEntry) (old : ScheduledSwap) (held : given.pending = some old)
      (early : height < old.activationHeight ∨ old.staleAt height = true) :
      Move height (.cancelSwap name moduleId) moduleId (some given) (some { given with pending := none })
  | withdraw (moduleId name : String) (given : ModuleEntry) (old : ScheduledSwap)
      (held : given.pending = some old) (early : height < old.activationHeight ∨ old.staleAt height = true)
      (codeless : given.history = []) :
      Move height (.cancelSwap name moduleId) moduleId (some given) none
  | signal (moduleId name : String) (codeHash : Bytes) (given : ModuleEntry) (old : ScheduledSwap)
      (held : given.pending = some old) (members : List Bytes) (pubkey : Bytes) :
      Move height (.swapReady name moduleId codeHash) moduleId (some given)
        (some { given with pending := some (signalled members pubkey height old) })

/-- The operation `msg` took the store from `s` to `s'`: a move of one module, the others left alone. -/
def Moved (height : Nat) (msg : ModulesMsg) (s s' : Store) : Prop :=
  ∃ moduleId, Move height msg moduleId (entry s moduleId) (entry s' moduleId) ∧
    ∀ other, other ≠ moduleId → entry s' other = entry s other

/-- The operation withdraws an admission: the module it names runs no code. -/
def codeless (s : Store) (moduleId : String) : Bool := (entry s moduleId).any (·.activeCodeHash = [])

/-- The table after an operation. -/
def lanesAfter (s : Store) : ModulesMsg → Except Error (List LaneRecord)
  | .registerModule moduleId _ _ lanes | .scheduleRegister _ moduleId _ _ _ lanes =>
    admitLanes (laneTable s) moduleId lanes
  | .cancelSwap _ moduleId =>
    .ok (if codeless s moduleId then (laneTable s).filter (·.moduleId ≠ moduleId) else laneTable s)
  | .scheduleSwap .. | .swapReady .. | .advance => .ok (laneTable s)

/-- What an accepted operation does: a move of one module, which keeps the store sound, and an edit of
the lane table. -/
structure Accepted (height : Nat) (msg : ModulesMsg) (s s' : Store) : Prop where
  moved : Moved height msg s s'
  sound : Sound s'
  lanes : lanesAfter s msg = .ok (laneTable s')

variable {height : Nat} {msg : ModulesMsg}

/-- A move keeps recorded hashes at their width. -/
theorem Move.wide {old new : Option ModuleEntry} (move : Move height msg moduleId old new)
    (wide : ∀ given, old = some given → given.Wide) : ∀ given, new = some given → given.Wide := by
  rintro given rfl
  cases move with
  | register _ _ _ _ width => exact ⟨by simpa using width, by simp⟩
  | announce _ _ _ _ _ _ width => exact ⟨by simp, by simpa [scheduled] using width⟩
  | schedule _ _ _ _ before width => exact ⟨(wide before rfl).history, by simpa [scheduled] using width⟩
  | cancel _ _ before => exact ⟨(wide before rfl).history, by simp⟩
  | signal _ _ _ before swap held =>
    exact ⟨(wide before rfl).history, by simpa [signalled] using (wide before rfl).pending swap held⟩

/-- What a move of `moduleId` leaves when the roster lists the entries again. -/
theorem Sound.moved {s' : Store} (sound : Sound s) (moduleId : String)
    (move : Move height msg moduleId (entry s moduleId) (entry s' moduleId))
    (frame : ∀ other, other ≠ moduleId → entry s' other = entry s other)
    (sorted : (roster s').Pairwise (· < ·))
    (listed : ∀ other, other ∈ roster s' ↔ (entry s' other).isSome)
    (lanes : lanesAfter s msg = .ok (laneTable s')) : Accepted height msg s s' := by
  refine ⟨⟨moduleId, move, frame⟩, ⟨sorted, listed, fun other given held => ?_⟩, lanes⟩
  by_cases same : other = moduleId
  · subst same
    exact move.wide (sound.wide other) given held
  · rw [frame other same] at held
    exact sound.wide other given held

/-- Rewriting one present entry by a move keeps the store sound. -/
theorem Sound.rewritten (sound : Sound s) {old new : ModuleEntry}
    (held : entry s moduleId = some old) (move : Move height msg moduleId (some old) (some new))
    (lanes : lanesAfter s msg = .ok (laneTable s)) :
    Accepted height msg s (put s (.mod moduleId) new) := by
  refine sound.moved moduleId ?_ ?_ ?_ ?_ (by rwa [laneTable_put_mod])
  · rw [held, entry_put_mod, if_pos rfl]
    exact move
  · intro other apart
    rw [entry_put_mod, if_neg apart]
  · exact sound.sorted
  · intro other
    rw [roster_put_mod, sound.listed, entry_put_mod]
    split
    · rename_i same
      rw [same, held]
      exact iff_of_true rfl rfl
    · rfl

/-! ## Operations -/

variable {swap : ScheduledSwap}

section operations

variable {M : Modules} {ask : (q : Ask) → Answer q} {env : Env} {scratch after : Scratch Key Value}
  {moduleId name : String} {ids : List String} {height : Nat} {s : Store} {codeHash : Bytes}
  {given : ModuleEntry}

/-- The entries and the roster are as before. -/
structure SameModules (s s' : Store) : Prop where
  entries : ∀ moduleId, entry s' moduleId = entry s moduleId
  rosters : roster s' = roster s

theorem ends_storeLaneTable {table : List LaneRecord}
    (ends : Ends ask (M.storeLaneTable table) scratch () after) :
    SameModules scratch.staged.get after.staged.get ∧ laneTable after.staged.get = table := by
  simp only [storeLaneTable, ends_bind, ends_refuseIf, ends_stage] at ends
  obtain ⟨_, _, ⟨-, rfl⟩, rfl⟩ := ends
  exact ⟨⟨fun moduleId => by simp, by simp⟩, by simp⟩

theorem ends_declareLanes {decls : List LaneDecl}
    (ends : Ends ask (M.declareLanes moduleId decls) scratch () after) :
    SameModules scratch.staged.get after.staged.get ∧
      admitLanes (laneTable scratch.staged.get) moduleId decls = .ok (laneTable after.staged.get) := by
  unfold declareLanes at ends
  split at ends
  · rename_i none
    obtain ⟨-, rfl⟩ := ends_pure.mp ends
    exact ⟨⟨fun _ => rfl, rfl⟩, by rw [none]; rfl⟩
  · simp only [ends_bind, ends_ofExcept] at ends
    obtain ⟨_, _, ⟨rfl, rfl⟩, table, _, ⟨admitted, rfl⟩, stored⟩ := ends
    obtain ⟨same, lanes⟩ := ends_storeLaneTable stored
    exact ⟨same, lanes ▸ admitted⟩

theorem ends_releaseLanes (ends : Ends ask (M.releaseLanes moduleId) scratch () after) :
    SameModules scratch.staged.get after.staged.get ∧
      laneTable after.staged.get = (laneTable scratch.staged.get).filter (·.moduleId ≠ moduleId) := by
  simp only [releaseLanes, ends_bind] at ends
  obtain ⟨_, _, ⟨rfl, rfl⟩, ends⟩ := ends
  split at ends
  · rename_i none
    obtain ⟨-, rfl⟩ := ends_pure.mp ends
    exact ⟨⟨fun _ => rfl, rfl⟩, (filter_sublist.eq_of_length none).symm⟩
  · exact ends_storeLaneTable ends

theorem ends_storeRoster (ends : Ends ask (M.storeRoster ids) scratch () after) :
    after = { scratch with staged := scratch.staged.stage .modules ids } := by
  simp only [storeRoster, ends_bind, ends_refuseIf, ends_stage] at ends
  obtain ⟨_, _, ⟨-, rfl⟩, rfl⟩ := ends
  rfl

/-- Registering an absent module is the move that creates its entry. -/
theorem ends_registerEntry {msg : ModulesMsg} {new : ModuleEntry}
    (ends : Ends ask (M.registerEntry (roster s) moduleId new) scratch () after) (sound : Sound s)
    (same : SameModules s scratch.staged.get) (absent : entry s moduleId = none)
    (move : Move height msg moduleId none (some new))
    (lanes : lanesAfter s msg = .ok (laneTable scratch.staged.get)) :
    Accepted height msg s after.staged.get := by
  unfold registerEntry at ends
  split at ends
  · exact absurd ends ends_fail
  rename_i position missing
  simp only [ends_bind, ends_refuseIf, ends_stage] at ends
  obtain ⟨_, _, ⟨-, rfl⟩, _, _, stored, rfl⟩ := ends
  rw [ends_storeRoster stored]
  generalize grown : (scratch.staged.stage .modules ((roster s).insertIdx position moduleId)).stage
    (.mod moduleId) new = staged
  have entries : ∀ other, entry staged.get other = if other = moduleId then some new else entry s other := by
    simp [← grown, same.entries]
  have rosters : roster staged.get = (roster s).insertIdx position moduleId := by simp [← grown]
  refine sound.moved moduleId ?_ ?_ ?_ ?_ (by simpa [← grown] using lanes)
  · rw [absent, entries, if_pos rfl]
    exact move
  · intro other apart
    rw [entries, if_neg apart]
  · rw [rosters]
    exact sorted_insertIdx_search sound.sorted missing
  · intro other
    rw [rosters, mem_insertIdx_search sound.sorted missing, entries, sound.listed]
    split
    · rename_i is
      simp [is]
    · rename_i apart
      simp [apart]

variable {lanes : List LaneDecl}

theorem ends_handleRegisterModule {kind : Kind}
    (ends : Ends ask (M.handleRegisterModule env moduleId kind codeHash lanes) scratch () after)
    (sound : Sound scratch.staged.get) :
    Accepted env.height (.registerModule moduleId kind codeHash lanes) scratch.staged.get after.staged.get := by
  simp only [handleRegisterModule, requireHashLen, ends_bind, ends_ofExcept,
    ends_refuseIf] at ends
  obtain ⟨_, _, ⟨-, rfl⟩, _, _, ⟨width, rfl⟩, _, _, ⟨rfl, rfl⟩, _, _, ⟨absent, rfl⟩, _, _, declared,
    _, _, ⟨rfl, rfl⟩, ends⟩ := ends
  obtain ⟨same, lanes⟩ := ends_declareLanes declared
  rw [same.rosters] at ends
  exact ends_registerEntry ends sound same (by simpa using absent)
    (.register moduleId kind codeHash _ (not_not.mp width)) lanes

theorem ends_handleScheduleSwap {floor : Nat}
    (ends : Ends ask (M.handleScheduleSwap env name moduleId floor codeHash) scratch () after)
    (sound : Sound scratch.staged.get) :
    Accepted env.height (.scheduleSwap name moduleId floor codeHash) scratch.staged.get after.staged.get := by
  simp only [handleScheduleSwap, requireHashLen, requireLead, ends_bind, ends_ofExcept,
    ends_refuseIf, ends_require, ends_stage] at ends
  obtain ⟨_, _, ⟨-, rfl⟩, _, _, ⟨width, rfl⟩, _, _, ⟨rfl, rfl⟩, given, _, ⟨held, rfl⟩, _, _, ⟨-, rfl⟩,
    _, _, ⟨-, rfl⟩, _, _, ⟨free, rfl⟩, rfl⟩ := ends
  rw [get_stage]
  refine sound.rewritten held (.schedule moduleId name floor codeHash given (not_not.mp width) ?_) rfl
  intro old pending
  simpa [pending] using free

theorem ends_handleScheduleRegister {kind : Kind} {floor : Nat}
    (ends : Ends ask (M.handleScheduleRegister env name moduleId floor kind codeHash lanes) scratch () after)
    (sound : Sound scratch.staged.get) :
    Accepted env.height (.scheduleRegister name moduleId kind floor codeHash lanes) scratch.staged.get
      after.staged.get := by
  simp only [handleScheduleRegister, requireHashLen, requireLead, ends_bind, ends_ofExcept,
    ends_refuseIf] at ends
  obtain ⟨_, _, ⟨-, rfl⟩, _, _, ⟨width, rfl⟩, _, _, ⟨-, rfl⟩, _, _, ⟨-, rfl⟩, _, _, ⟨-, rfl⟩, _, _, ⟨rfl, rfl⟩,
    _, _, ⟨absent, rfl⟩, _, _, ⟨-, rfl⟩, _, _, declared, _, _, ⟨rfl, rfl⟩, ends⟩ := ends
  obtain ⟨same, lanes⟩ := ends_declareLanes declared
  rw [same.rosters] at ends
  exact ends_registerEntry ends sound same (by simpa using absent)
    (.announce moduleId name kind floor codeHash _ (not_not.mp width)) lanes

theorem reads_members : M.members.Reads := by
  refine .bind (.query _ _) fun reply => ?_
  split
  · exact .pure _
  · exact .fail _
  · exact .fail _

theorem ends_handleSwapReady
    (ends : Ends ask (M.handleSwapReady env name moduleId codeHash) scratch () after)
    (sound : Sound scratch.staged.get) :
    Accepted env.height (.swapReady name moduleId codeHash) scratch.staged.get after.staged.get := by
  unfold handleSwapReady at ends
  split at ends
  · rename_i pubkey _
    simp only [ends_bind, ends_refuseIf, ends_require, ends_stage] at ends
    obtain ⟨members, _, answered, _, _, ⟨-, rfl⟩, _, _, ⟨rfl, rfl⟩, given, _, ⟨held, rfl⟩, swap, _,
      ⟨matching, rfl⟩, rfl⟩ := ends
    obtain rfl := reads_members _ _ _ _ answered
    obtain ⟨pending, -⟩ := filter_eq_some_iff.mp matching
    rw [get_stage]
    exact sound.rewritten held (.signal moduleId name codeHash given swap pending members pubkey) rfl
  · exact absurd ends ends_fail

theorem ends_handleCancelSwap (ends : Ends ask (M.handleCancelSwap env name moduleId) scratch () after)
    (sound : Sound scratch.staged.get) :
    Accepted env.height (.cancelSwap name moduleId) scratch.staged.get after.staged.get ∧
      (codeless scratch.staged.get moduleId = true → entry after.staged.get moduleId = none) := by
  simp only [handleCancelSwap, ends_bind, ends_ofExcept, ends_refuseIf,
    ends_require] at ends
  obtain ⟨_, _, ⟨-, rfl⟩, s, _, ⟨rfl, rfl⟩, given, _, ⟨held, rfl⟩, swap, _, ⟨matching, rfl⟩, _, _,
    ⟨cancellable, rfl⟩, ends⟩ := ends
  obtain ⟨pending, -⟩ := filter_eq_some_iff.mp matching
  have early : env.height < swap.activationHeight ∨ swap.staleAt env.height = true := by
    rw [← Nat.not_le, ← imp_iff_not_or]
    simpa using cancellable
  have decided : codeless scratch.staged.get moduleId = decide (given.activeCodeHash = []) := by
    simp [codeless, held]
  split at ends
  · rename_i empty
    have mem := (sound.listed moduleId).mpr (by rw [held]; rfl)
    obtain ⟨position, found⟩ := (search_ok_iff sound.sorted).mpr mem
    simp only [leaveRoster, unlist, found, ends_bind, ends_delete] at ends
    obtain ⟨_, erased, rostered, _, _, rfl, released⟩ := ends
    obtain ⟨same, lanes⟩ := ends_releaseLanes released
    have rosters : roster erased.staged.get = (roster scratch.staged.get).eraseIdx position ∧
        laneTable erased.staged.get = laneTable scratch.staged.get ∧
        ∀ other, entry erased.staged.get other = entry scratch.staged.get other := by
      split at rostered
      · rename_i none
        obtain rfl := ends_delete.mp rostered
        simp [none]
      · obtain rfl := ends_stage.mp rostered
        simp
    have entries : ∀ other, entry after.staged.get other =
        if other = moduleId then none else entry scratch.staged.get other := by
      intro other
      rw [same.entries, get_delete, entry_drop_mod, rosters.2.2]
    have left : roster after.staged.get = (roster scratch.staged.get).eraseIdx position := by
      rw [same.rosters, get_delete, roster_drop_mod, rosters.1]
    refine ⟨sound.moved moduleId ?_ ?_ ?_ ?_ ?_, fun _ => by rw [entries, if_pos rfl]⟩
    · rw [held, entries, if_pos rfl]
      exact .withdraw moduleId name given swap pending early (sound.history_nil held empty)
    · intro other apart
      rw [entries, if_neg apart]
    · rw [left]
      exact sound.sorted.sublist (eraseIdx_sublist ..)
    · intro other
      rw [left, mem_eraseIdx_search sound.sorted found, sound.listed, entries]
      split <;> simp_all
    · rw [lanesAfter, decided, if_pos (decide_eq_true empty), lanes, get_delete,
        laneTable_drop_mod, rosters.2.1]
  · rename_i active
    obtain rfl := ends_stage.mp ends
    have runs : codeless scratch.staged.get moduleId = false := by simp [decided, active]
    rw [get_stage]
    exact ⟨sound.rewritten held (.cancel moduleId name given swap pending early) (by simp [lanesAfter, runs]),
      fun empty => by simp [runs] at empty⟩

/-- **An accepted operation is a move of the module it names**, and keeps the store sound. -/
theorem ends_handleMsg {msg : ModulesMsg} (ends : Ends ask (M.handleMsg env msg) scratch () after)
    (operation : msg ≠ .advance) (sound : Sound scratch.staged.get) :
    Accepted env.height msg scratch.staged.get after.staged.get := by
  cases msg with
  | registerModule => exact ends_handleRegisterModule ends sound
  | scheduleSwap => exact ends_handleScheduleSwap ends sound
  | scheduleRegister => exact ends_handleScheduleRegister ends sound
  | cancelSwap => exact (ends_handleCancelSwap ends sound).1
  | swapReady => exact ends_handleSwapReady ends sound
  | advance => exact absurd rfl operation

/-! ## The boundary tick -/

/-- The entry with its pending swap, if any, activated at `height`. -/
def ModuleEntry.flip (given : ModuleEntry) (height : Nat) : ModuleEntry :=
  match given.pending with
  | none => given
  | some swap => { given with pending := none, history := given.history ++ [⟨height, swap.codeHash⟩] }

theorem ModuleEntry.flip_of_pending (pending : given.pending = some swap) (height : Nat) :
    given.flip height = { given with pending := none, history := given.history ++ [⟨height, swap.codeHash⟩] } := by
  rw [flip, pending]

theorem ModuleEntry.Wide.flip (wide : given.Wide) (height : Nat) : (given.flip height).Wide := by
  cases pending : given.pending with
  | none => rwa [ModuleEntry.flip, pending]
  | some swap =>
    rw [flip_of_pending pending]
    refine ⟨fun act mem => ?_, by simp⟩
    rcases mem_append.mp mem with mem | mem
    · exact wide.history act mem
    · rw [mem_singleton.mp mem]
      exact wide.pending swap pending

/-- Activating the modules of `ids` takes `s` to `s'`. -/
structure Flipped (height : Nat) (ids : List String) (s s' : Store) : Prop where
  rosters : roster s' = roster s
  within : ∀ moduleId ∈ ids, entry s' moduleId = (entry s moduleId).map (·.flip height)
  outside : ∀ moduleId, moduleId ∉ ids → entry s' moduleId = entry s moduleId

theorem Flipped.sound {s' : Store} (flipped : Flipped height ids s s')
    (sound : Sound s) : Sound s' where
  sorted := by
    rw [flipped.rosters]
    exact sound.sorted
  listed moduleId := by
    rw [flipped.rosters, sound.listed]
    by_cases mem : moduleId ∈ ids
    · rw [flipped.within moduleId mem, isSome_map]
    · rw [flipped.outside moduleId mem]
  wide moduleId given held := by
    by_cases mem : moduleId ∈ ids
    · rw [flipped.within moduleId mem] at held
      obtain ⟨before, was, rfl⟩ := map_eq_some_iff.mp held
      exact (sound.wide moduleId before was).flip height
    · rw [flipped.outside moduleId mem] at held
      exact sound.wide moduleId given held

/-- What activating one module leaves. -/
theorem ends_flipOne (ends : Ends ask (flipOne height moduleId) scratch () after) :
    Flipped height [moduleId] scratch.staged.get after.staged.get ∧
      laneTable after.staged.get = laneTable scratch.staged.get := by
  simp only [flipOne, rosteredEntry, ends_bind, ends_require] at ends
  obtain ⟨given, _, ⟨_, _, ⟨rfl, rfl⟩, held, rfl⟩, ends⟩ := ends
  split at ends
  · rename_i idle
    obtain ⟨-, rfl⟩ := ends_pure.mp ends
    refine ⟨⟨rfl, fun other mem => ?_, fun _ _ => rfl⟩, rfl⟩
    rw [List.mem_singleton.mp mem, held, Option.map_some, ModuleEntry.flip, idle]
  · rename_i pending
    obtain rfl := ends_stage.mp ends
    refine ⟨⟨by simp, fun other mem => ?_, fun other apart => ?_⟩, by simp⟩
    · rw [mem_singleton.mp mem, held, map_some, flip_of_pending pending]
      simp
    · rw [get_stage, entry_put_mod, if_neg (by simpa using apart)]

/-- A registered module can be activated. -/
theorem flipOne_ends (height : Nat) (held : entry scratch.staged.get moduleId = some given) :
    ∃ after, Ends ask (flipOne height moduleId) scratch () after := by
  simp only [flipOne, rosteredEntry, ends_bind, ends_view, ends_require]
  cases pending : given.pending with
  | none => exact ⟨scratch, given, scratch, ⟨_, _, ⟨rfl, rfl⟩, held, rfl⟩, by simp [pending]⟩
  | some swap =>
    refine ⟨{ scratch with staged := scratch.staged.stage (.mod moduleId) (given.flip height) }, given, scratch,
      ⟨_, _, ⟨rfl, rfl⟩, held, rfl⟩, ?_⟩
    simp [pending, flip_of_pending pending]

/-- What activating several modules leaves. -/
theorem ends_flipAll (once : ids.Nodup) (ends : Ends ask (flipAll height ids) scratch () after) :
    Flipped height ids scratch.staged.get after.staged.get ∧
      laneTable after.staged.get = laneTable scratch.staged.get := by
  induction ids generalizing scratch with
  | nil =>
    obtain ⟨-, rfl⟩ := ends_pure.mp ends
    exact ⟨⟨rfl, by simp, fun _ _ => rfl⟩, rfl⟩
  | cons moduleId rest ih =>
    obtain ⟨fresh, once⟩ := nodup_cons.mp once
    obtain ⟨_, middle, one, ends⟩ := ends_bind.mp ends
    obtain ⟨first, table⟩ := ends_flipOne one
    obtain ⟨others, table'⟩ := ih once ends
    refine ⟨⟨others.rosters.trans first.rosters, ?_, ?_⟩, table'.trans table⟩
    · intro other mem
      rcases mem_cons.mp mem with rfl | later
      · rw [others.outside other fresh, first.within other (mem_singleton.mpr rfl)]
      have apart : other ∉ [moduleId] := by
        rw [mem_singleton]
        rintro rfl
        exact fresh later
      rw [others.within other later, first.outside other apart]
    · intro other apart
      rw [mem_cons, not_or] at apart
      rw [others.outside other apart.2, first.outside other (by simpa using apart.1)]

/-- Registered modules can be activated. -/
theorem flipAll_ends (height : Nat)
    (held : ∀ moduleId ∈ ids, (entry scratch.staged.get moduleId).isSome) :
    ∃ after, Ends ask (flipAll height ids) scratch () after := by
  induction ids generalizing scratch with
  | nil => exact ⟨scratch, ends_pure.mpr ⟨rfl, rfl⟩⟩
  | cons moduleId rest ih =>
    obtain ⟨given, first⟩ := isSome_iff_exists.mp (held moduleId mem_cons_self)
    obtain ⟨middle, one⟩ := flipOne_ends height first
    have others : ∀ other ∈ rest, (entry middle.staged.get other).isSome := by
      intro other mem
      have was := held other (mem_cons_of_mem _ mem)
      by_cases same : other ∈ [moduleId]
      · rwa [(ends_flipOne one).1.within other same, isSome_map]
      · rwa [(ends_flipOne one).1.outside other same]
    obtain ⟨after, ends⟩ := ih others
    exact ⟨after, ends_bind.mpr ⟨(), middle, one, ends⟩⟩

/-- A module is flipped at `height` if its committed pending swap is armed. -/
theorem mem_armedSwaps (sound : Sound s) :
    moduleId ∈ armedSwaps s height ↔ ∃ given swap, entry s moduleId = some given ∧
      given.pending = some swap ∧ swap.armedAt height = true := by
  simp only [armedSwaps, List.mem_filter, sound.listed, Option.any_eq_true, Option.bind_eq_some_iff]
  constructor
  · rintro ⟨-, swap, ⟨given, held, pending⟩, armed⟩
    exact ⟨given, swap, held, pending, armed⟩
  · rintro ⟨given, swap, held, pending, armed⟩
    exact ⟨by rw [held]; rfl, swap, ⟨given, held, pending⟩, armed⟩

theorem nodup_armedSwaps (sound : Sound s) (height : Nat) : (armedSwaps s height).Nodup :=
  (sound.sorted.imp ne_of_lt).filter _

theorem ends_handleAdvance (sound : Sound scratch.staged.store)
    (ends : Ends ask (handleAdvance env) scratch () after) :
    Flipped env.height (armedSwaps scratch.staged.store env.height) scratch.staged.get after.staged.get ∧
      laneTable after.staged.get = laneTable scratch.staged.get := by
  simp only [handleAdvance, ends_bind, ends_ofExcept] at ends
  obtain ⟨_, _, ⟨-, rfl⟩, _, _, ⟨rfl, rfl⟩, ends⟩ := ends
  exact ends_flipAll (nodup_armedSwaps sound env.height) ends

theorem handleAdvance_ends (system : env.origin = .system)
    (held : ∀ moduleId ∈ armedSwaps scratch.staged.store env.height,
      (entry scratch.staged.get moduleId).isSome) :
    ∃ after, Ends ask (handleAdvance env) scratch () after := by
  obtain ⟨after, ends⟩ := flipAll_ends env.height held
  refine ⟨after, ?_⟩
  simp only [handleAdvance, ends_bind, ends_ofExcept, ends_committed]
  exact ⟨(), scratch, ⟨by rw [requireSystem, system], rfl⟩, _, scratch, ⟨rfl, rfl⟩, ends⟩

end operations

/-! ## Blocks -/

/-- The activations of an entry; an absent module has none. -/
def activations (given : Option ModuleEntry) : List Activation := (given.map (·.history)).getD []

/-- The entry that had `swap` pending still has it, with the same code, floor and latch. -/
def Armed (given : ModuleEntry) (swap : ScheduledSwap) (now : Option ModuleEntry) : Prop :=
  ∃ kept : ScheduledSwap, now = some { given with pending := some kept } ∧ kept.codeHash = swap.codeHash ∧
    kept.readyAt = swap.readyAt ∧ kept.activationHeight = swap.activationHeight

section moves

variable {height : Nat} {msg : ModulesMsg} {moduleId : String} {old new : Option ModuleEntry}

/-- An armed swap is neither stale nor early, and its latch is taken: no operation of the block moves it. -/
theorem Armed.move (armed : swap.armedAt height = true) (held : Armed given swap old)
    (move : Move height msg moduleId old new) : Armed given swap new := by
  obtain ⟨kept, rfl, hash, latch, floor⟩ := held
  obtain ⟨latched, reached⟩ : (∃ l, swap.readyAt = some l ∧ l < height) ∧ swap.activationHeight ≤ height := by
    simpa [ScheduledSwap.armedAt, Option.any_eq_true] using armed
  obtain ⟨l, latched, -⟩ := latched
  have notStale : kept.staleAt height = false := by simp [ScheduledSwap.staleAt, latch, latched]
  have notEarly : ¬ height < kept.activationHeight := by
    rw [floor]
    exact Nat.not_lt.mpr reached
  cases move with
  | schedule _ _ _ _ _ _ free =>
    rw [free kept rfl] at notStale
    cases notStale
  | cancel _ _ _ was pending early | withdraw _ _ _ was pending early =>
    cases pending
    rw [notStale] at early
    exact absurd (early.resolve_right (by simp)) notEarly
  | signal _ _ _ _ was pending members pubkey =>
    cases pending
    exact ⟨signalled members pubkey height kept, rfl, hash,
      by simp [signalled, latch, latched], floor⟩

/-- Only a direct registration, of an absent module, touches a history. -/
theorem Move.activations (move : Move height msg moduleId old new) :
    activations new = activations old ∨
      old = none ∧ ∃ kind codeHash lanes, msg = .registerModule moduleId kind codeHash lanes ∧
        Modules.activations new = [⟨height, codeHash⟩] := by
  cases move with
  | register _ kind codeHash lanes => exact .inr ⟨rfl, kind, codeHash, lanes, rfl, rfl⟩
  | withdraw _ _ given _ _ _ codeless => exact .inl (by simp [Modules.activations, codeless])
  | schedule | announce | cancel | signal => exact .inl rfl

end moves

/-! ## The committed state during a block

A `do` block is taken apart at its binds and branches; the leaves are the calls whose lemma is in the simp set. -/

section stages

variable (M : Modules) (env : Env)

attribute [local simp] reads_members requireHashLen requireLead

@[local simp] theorem stages_storeRoster : (M.storeRoster ids).Stages :=
  .bind (by simp) fun _ => .stage _ _

@[local simp] theorem stages_storeLaneTable (table : List LaneRecord) : (M.storeLaneTable table).Stages :=
  .bind (by simp) fun _ => .stage _ _

@[local simp] theorem stages_declareLanes (moduleId : String) (decls : List LaneDecl) :
    (M.declareLanes moduleId decls).Stages := by
  unfold declareLanes
  repeat' first | simp | split | refine .bind ?_ fun _ => ?_

@[local simp] theorem stages_releaseLanes (moduleId : String) : (M.releaseLanes moduleId).Stages := by
  repeat' first | (simp; done) | split | refine .bind ?_ fun _ => ?_ | dsimp only

@[local simp] theorem stages_registerEntry (moduleId : String) (given : ModuleEntry) :
    (M.registerEntry ids moduleId given).Stages := by
  unfold registerEntry
  repeat' first | (simp; done) | split | refine .bind ?_ fun _ => ?_

@[local simp] theorem stages_leaveRoster (moduleId : String) : (leaveRoster ids moduleId).Stages := by
  unfold leaveRoster
  split <;> simp

@[local simp] theorem stages_enrol (moduleId : String) : (M.enrol ids moduleId).Stages := by
  unfold enrol
  split <;> simp

theorem stages_seedAll (seeds : List (String × Seed)) : (M.seedAll seeds).Stages := by
  induction seeds with
  | nil => exact .pure _
  | cons head seeds ih => repeat' first | assumption | simp | split | refine .bind ?_ fun _ => ?_

@[local simp] theorem stages_flipAll (height : Nat) (ids : List String) : (flipAll height ids).Stages := by
  induction ids with
  | nil => exact .pure _
  | cons moduleId rest ih => repeat' first | assumption | simp | split | refine .bind ?_ fun _ => ?_

/-- No operation writes the committed state. -/
theorem stages_handleMsg (msg : ModulesMsg) : (M.handleMsg env msg).Stages := by
  cases msg with
  | swapReady name moduleId codeHash =>
    change (M.handleSwapReady env name moduleId codeHash).Stages
    unfold handleSwapReady
    repeat' first | (simp; done) | split | refine .bind ?_ fun _ => ?_
  | _ => repeat' first | (simp; done) | split | refine .bind ?_ fun _ => ?_

end stages

/-! ## Runs -/

section runs

variable (M : Modules)

/-- A committed state that a genesis and any blocks of operations lead to. -/
inductive Reachable : Store → Prop
  | genesis {ask : (q : Ask) → Answer q} {seeds : List (String × Seed)} {after : Scratch Key Value}
      (ends : Ends ask (M.initialise seeds) ⟨.new fun _ => none, default⟩ () after) :
      Reachable after.staged.store
  | block {s : Store} (before : Reachable s) (calls : List (Invocation ModulesMsg)) :
      Reachable (runCalls M.handleMsg (.new s) calls).get

variable {M} {after scratch : Scratch Key Value} {ask : (q : Ask) → Answer q} {moduleId : String}
  {seeds : List (String × Seed)} {call : Invocation ModulesMsg} {staged : StagedStore Key Value}
  {calls : List (Invocation ModulesMsg)}

theorem SameModules.sound {s' : Store} (same : SameModules s s') (sound : Sound s) : Sound s' where
  sorted := by
    rw [same.rosters]
    exact sound.sorted
  listed moduleId := by rw [same.rosters, same.entries, sound.listed]
  wide moduleId given held := sound.wide moduleId given (by rw [← same.entries, held])

/-- Enrolling a module lists it beside those listed before. -/
theorem ends_enrol (ends : Ends ask (M.enrol (roster scratch.staged.get) moduleId) scratch () after)
    (sound : Sound scratch.staged.get) : (roster after.staged.get).Pairwise (· < ·) ∧
      (∀ other, entry after.staged.get other = entry scratch.staged.get other) ∧
      ∀ other, other ∈ roster after.staged.get ↔ other = moduleId ∨ other ∈ roster scratch.staged.get := by
  unfold enrol at ends
  split at ends
  · rename_i position found
    obtain ⟨-, rfl⟩ := ends_pure.mp ends
    refine ⟨sound.sorted, fun _ => rfl, fun other => ?_⟩
    have mem := (search_ok_iff sound.sorted).mp ⟨position, found⟩
    exact ⟨.inr, fun either => either.elim (fun same => same ▸ mem) fun mem => mem⟩
  · rename_i missing
    rw [ends_storeRoster ends, get_stage]
    exact ⟨sorted_insertIdx_search sound.sorted missing, fun other => entry_put_modules _ other _,
      mem_insertIdx_search sound.sorted missing⟩

/-- Seeding a module keeps the view sound. -/
theorem ends_seed {given : Seed} (ends : Ends ask (M.seed moduleId given) scratch () after)
    (sound : Sound scratch.staged.get) : Sound after.staged.get := by
  simp only [seed, ends_bind, ends_refuseIf, ends_stage] at ends
  obtain ⟨_, _, ⟨width, rfl⟩, _, declared, lanes, _, _, ⟨rfl, rfl⟩, _, _, enrolled, rfl⟩ := ends
  have sound := (ends_declareLanes lanes).1.sound sound
  obtain ⟨sorted, entries, members⟩ := ends_enrol enrolled sound
  rw [get_stage]
  refine ⟨?_, fun other => ?_, fun other held was => ?_⟩
  · exact sorted
  · rw [roster_put_mod, members, entry_put_mod, sound.listed]
    split <;> simp [*]
  · rw [entry_put_mod, entries] at was
    split at was
    · cases was
      exact ⟨by simpa using not_not.mp width, by simp⟩
    · exact sound.wide other held was

/-- **What a genesis and the accepted operations keep holds of every reachable state.** -/
theorem Reachable.invariant {P : Store → Prop} (empty : P fun _ => none)
    (seeded : ∀ {ask scratch after moduleId given}, Ends ask (M.seed moduleId given) scratch () after →
      P scratch.staged.get → P after.staged.get)
    (called : ∀ {ask env scratch after msg}, Ends ask (M.handleMsg env msg) scratch () after →
      P scratch.staged.store → P scratch.staged.get → P after.staged.get) (reached : M.Reachable s)
    : P s := by
  have seeds : ∀ {ask} (seeds : List (String × Seed)) {scratch after : Scratch Key Value},
      Ends ask (M.seedAll seeds) scratch () after → P scratch.staged.get → P after.staged.get := by
    intro ask seeds
    induction seeds with
    | nil =>
      intro scratch after ends before
      obtain ⟨-, rfl⟩ := ends_pure.mp ends
      exact before
    | cons head seeds ih =>
      intro scratch after ends before
      simp only [seedAll, ends_bind, ends_refuseIf] at ends
      obtain ⟨_, _, ⟨-, rfl⟩, _, _, first, ends⟩ := ends
      exact ih ends (seeded first before)
  induction reached with
  | genesis ends =>
    simp only [initialise, finishSeed, ends_bind] at ends
    obtain ⟨_, last, ran, _, _, ⟨rfl, rfl⟩, ends⟩ := ends
    split at ends
    · rw [← ends_discard.mp ends]
      have store : last.staged.store = fun _ => none := M.stages_seedAll _ _ _ _ _ ran
      rw [abort, store]
      exact empty
    · rw [← ends_publish.mp ends]
      exact seeds _ ran empty
  | @block s _ calls ih =>
    have fresh : P (new s).get := ih
    refine (runCalls_invariant (P := fun staged => P staged.store ∧ P staged.get) calls ?_ ⟨ih, fresh⟩).2
    intro call _ staged staged' out both accepted
    have ends := Invocation.accepted_iff.mp accepted
    have store := M.stages_handleMsg _ _ _ _ _ _ ends
    exact ⟨store ▸ both.1, called ends both.1 both.2⟩

theorem Reachable.sound (reached : M.Reachable s) : Sound s := by
  refine reached.invariant ⟨.nil, fun _ => by simp [roster, entry], by simp [entry]⟩ ends_seed
    fun {_ _ _ _ msg} ends committed sound => ?_
  by_cases tick : msg = .advance
  · subst tick
    exact (ends_handleAdvance committed ends).1.sound sound
  · exact (ends_handleMsg ends tick sound).sound

/-- What the operations of a block at `height` have done to a module by any moment of it. -/
structure Drifted (height : Nat) (calls : List (Invocation ModulesMsg)) (moduleId : String)
    (old now : Option ModuleEntry) : Prop where
  armed : ∀ given swap, old = some given → given.pending = some swap → swap.armedAt height = true →
    Armed given swap now
  history : activations now = activations old ∨ activations old = [] ∧ ∃ call ∈ calls, ∃ kind codeHash lanes,
    call.msg = .registerModule moduleId kind codeHash lanes ∧ activations now = [⟨height, codeHash⟩]

theorem Drifted.start (height : Nat) (calls : List (Invocation ModulesMsg)) (moduleId : String)
    (old : Option ModuleEntry) : Drifted height calls moduleId old old where
  armed given swap held pending _ := ⟨swap, by rw [held, ← pending], rfl, rfl, rfl⟩
  history := .inl rfl

theorem Drifted.move {height : Nat}
    {old now next : Option ModuleEntry} (drifted : Drifted height calls moduleId old now)
    (mem : call ∈ calls) (move : Move height call.msg moduleId now next) :
    Drifted height calls moduleId old next where
  armed given swap held pending armed := (drifted.armed given swap held pending armed).move armed move
  history := by
    rcases move.activations with same | ⟨rfl, kind, codeHash, lanes, registers, gains⟩
    · rw [same]
      exact drifted.history
    refine .inr ⟨?_, call, mem, kind, codeHash, lanes, registers, gains⟩
    rcases drifted.history with same | ⟨none, -⟩
    · exact same.symm
    · exact none

/-- The operations of a block leave every module drifted, over a sound view. -/
theorem drifted_runCalls {height : Nat} (sound : Sound s)
    (atHeight : ∀ call ∈ calls, call.env.height = height)
    (operations : ∀ call ∈ calls, call.msg ≠ .advance) :
    (runCalls M.handleMsg (.new s) calls).store = s ∧ Sound (runCalls M.handleMsg (.new s) calls).get ∧
      ∀ moduleId, Drifted height calls moduleId (entry s moduleId)
        (entry (runCalls M.handleMsg (.new s) calls).get moduleId) := by
  refine runCalls_invariant (P := fun staged => staged.store = s ∧ Sound staged.get ∧
    ∀ moduleId, Drifted height calls moduleId (entry s moduleId) (entry staged.get moduleId)) calls ?_
    ⟨rfl, sound, fun moduleId => .start height calls moduleId _⟩
  rintro call mem staged staged' out ⟨stays, sound, drifted⟩ accepted
  have ends := Invocation.accepted_iff.mp accepted
  obtain ⟨⟨moved, move, frame⟩, sound', -⟩ := ends_handleMsg ends (operations call mem) sound
  refine ⟨(M.stages_handleMsg _ _ _ _ _ _ ends).trans stays, sound', fun moduleId => ?_⟩
  by_cases is : moduleId = moved
  · subst is
    rw [atHeight call mem] at move
    exact (drifted moduleId).move mem move
  · rw [frame moduleId is]
    exact drifted moduleId

/-- The module's committed pending swap is armed at `height`. -/
def ArmedIn (s : Store) (height : Nat) (moduleId : String) (given : ModuleEntry) (swap : ScheduledSwap) : Prop :=
  entry s moduleId = some given ∧ given.pending = some swap ∧ swap.armedAt height = true

/-- **The boundary tick activates exactly the swaps that the previous block committed as armed.** After any
operations of a block, in any order, the tick at its end is accepted, and

* a module whose committed pending swap is armed gains one activation, with the hash of that swap, and has
  nothing pending;
* any other module ends with the history it had committed, unless the block registered it directly: then it
  had none, and has the activation of its registration. -/
theorem advance_activates_armed {s : Store} (reached : M.Reachable s) {height : Nat}
    {calls : List (Invocation ModulesMsg)} {tick : Invocation ModulesMsg}
    (atHeight : ∀ call ∈ calls, call.env.height = height) (operations : ∀ call ∈ calls, call.msg ≠ .advance)
    (advance : tick.msg = .advance) (system : tick.env.origin = .system) (tickHeight : tick.env.height = height) :
    ∃ after out, tick.accepted M.handleMsg (runCalls M.handleMsg (.new s) calls) = some (after, out) ∧
      ∀ moduleId,
        (∀ given swap, ArmedIn s height moduleId given swap → entry after.get moduleId =
          some { given with pending := none, history := given.history ++ [⟨height, swap.codeHash⟩] }) ∧
        ((¬ ∃ given swap, ArmedIn s height moduleId given swap) →
          activations (entry after.get moduleId) = activations (entry s moduleId) ∨
            activations (entry s moduleId) = [] ∧ ∃ call ∈ calls, ∃ kind codeHash lanes,
              call.msg = .registerModule moduleId kind codeHash lanes ∧
              activations (entry after.get moduleId) = [⟨height, codeHash⟩]) := by
  have sound := reached.sound
  obtain ⟨store, -, drifted⟩ := drifted_runCalls sound atHeight operations
  generalize runCalls M.handleMsg (.new s) calls = staged at store drifted
  have held : ∀ moduleId ∈ armedSwaps staged.store tick.env.height, (entry staged.get moduleId).isSome := by
    rw [store, tickHeight]
    intro moduleId mem
    obtain ⟨given, swap, held, pending, armed⟩ := (mem_armedSwaps sound).mp mem
    obtain ⟨kept, now, -⟩ := (drifted moduleId).armed given swap held pending armed
    rw [now]
    rfl
  obtain ⟨after, ends⟩ : ∃ after, Ends tick.ask (handleAdvance tick.env) ⟨staged, default⟩ () after :=
    handleAdvance_ends system held
  obtain ⟨flipped, -⟩ := ends_handleAdvance (by rw [store]; exact sound) ends
  rw [store, tickHeight] at flipped
  refine ⟨after.staged, after.out, Invocation.accepted_iff.mpr (by rw [advance]; exact ends), fun moduleId => ⟨?_, ?_⟩⟩
  · rintro given swap ⟨held, pending, armed⟩
    obtain ⟨kept, now, hash, -⟩ := (drifted moduleId).armed given swap held pending armed
    have mem := (mem_armedSwaps sound).mpr ⟨given, swap, held, pending, armed⟩
    rw [flipped.within moduleId mem, now, Option.map_some, ModuleEntry.flip_of_pending rfl, hash]
  · intro unarmed
    have apart : moduleId ∉ armedSwaps s height := fun mem => unarmed ((mem_armedSwaps sound).mp mem)
    rw [flipped.outside moduleId apart]
    exact (drifted moduleId).history

end runs

/-! ## A network of one validator -/

/-- The registry of a network whose one validator is `[1]`. -/
def soleRegistry : Modules where
  id := "modules"
  valsetId := "valset"
  governanceId := "governance"
  wire := { blankWire with valsetReply := ⟨fun _ => [], fun _ => .ok (.validators [[1]]), fun _ => ""⟩ }
  modulesMsg := blankCodec _
  rosterBytes _ := []
  laneTableBytes _ := []

/-- The validator set answers; no module is live. -/
def validatorAnswers : (q : Ask) → Answer q
  | .query _ _ => .ok []
  | .root _ => none

/-- One call at a height. -/
def callAt (height : Nat) (origin : Origin) (msg : ModulesMsg) : Invocation ModulesMsg where
  ask := validatorAnswers
  env := { (default : Env) with height, origin }
  msg := msg

/-- The hash of 32 equal bytes. -/
def sampleHash (byte : UInt8) : Bytes := List.replicate codeHashLen byte

def foundedScratch : Scratch Key Value :=
  ((soleRegistry.initialise [("m", ⟨.module, sampleHash 1, []⟩)] ⟨.new fun _ => none, default⟩).eval validatorAnswers).2

theorem reachable_founded : soleRegistry.Reachable foundedScratch.staged.store := by
  have ends : Ends validatorAnswers (soleRegistry.initialise [("m", ⟨.module, sampleHash 1, []⟩)])
      ⟨.new fun _ => none, default⟩ () foundedScratch := Prod.ext rfl rfl
  exact .genesis ends

/-- A swap is scheduled in the first block and its readiness latched in the second. -/
def readiedStore : Store :=
  (runCalls soleRegistry.handleMsg (.new (runCalls soleRegistry.handleMsg (.new foundedScratch.staged.store)
    [callAt 1 .system (.scheduleSwap "s" "m" 6 (sampleHash 2))]).get)
    [callAt 2 (.external [1]) (.swapReady "s" "m" (sampleHash 2))]).get

theorem reachable_readied : soleRegistry.Reachable readiedStore := (reachable_founded.block _).block _

/-- A withdrawal of the armed swap, and the direct registration of a second module. -/
def lateCalls : List (Invocation ModulesMsg) :=
  [callAt 6 .system (.cancelSwap "s" "m"), callAt 6 .system (.registerModule "n" .module (sampleHash 3) [])]

/-- A module registered directly in a block has an activation there though nothing of it was armed. -/
theorem registration_activates_unarmed : soleRegistry.Reachable readiedStore ∧
    entry readiedStore "n" = none ∧
    (((callAt 6 .system .advance).accepted soleRegistry.handleMsg
        (runCalls soleRegistry.handleMsg (.new readiedStore) lateCalls)).map fun result =>
      activations (entry result.1.get "n")) = some [⟨6, sampleHash 3⟩] :=
  ⟨reachable_readied, by decide +kernel, by decide +kernel⟩

theorem advance_activates_armed_late :
    ∃ after out, (callAt 6 .system .advance).accepted soleRegistry.handleMsg
        (runCalls soleRegistry.handleMsg (.new readiedStore) lateCalls) = some (after, out) ∧
      entry after.get "m" = some ⟨.module, none, [⟨0, sampleHash 1⟩, ⟨6, sampleHash 2⟩]⟩ := by
  have atHeight : ∀ call ∈ lateCalls, call.env.height = 6 := by decide
  have tick : (callAt 6 .system .advance).msg = .advance := rfl
  obtain ⟨after, out, accepted, modules⟩ :=
    advance_activates_armed reachable_readied atHeight (by decide) tick rfl rfl
  refine ⟨after, out, accepted, ?_⟩
  exact (modules "m").1 ⟨.module, some ⟨"s", 6, sampleHash 2, [[1]], some 2⟩, [⟨0, sampleHash 1⟩]⟩
    ⟨"s", 6, sampleHash 2, [[1]], some 2⟩ ⟨by decide +kernel, rfl, by decide +kernel⟩

end Ducktape.Modules
