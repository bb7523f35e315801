import Std.Data.ExtTreeMap
import Mathlib.Data.List.Pairwise
import Ducktape.Lib.Lockstep
import Ducktape.Sdk.Types

/-! # The packs of pushed branches

Pushes stage fates for the branches of a repository. At the block boundary `publish` puts them on the
committed map, and `materialize` moves the git ref of each pending branch whose objects this node has:
it installs the pack the push named from the node's body store, and releases that pack once the branch
has caught up.

libgit2 is a parameter (`Git`). The one-shot warnings and the pending, stuck and tracker files are left
out.

* `pack_kept_iff`: when no pack that a branch waits for is released -/

namespace Ducktape.Forge

open Std List Lib

/-- A git object id, 20 raw bytes. -/
abbrev Oid := Bytes

/-- A pack's sha256, 32 raw bytes. -/
abbrev Digest := Bytes

def isProtectedBranch (branch : String) : Bool :=
  branch == "main" || branch == "dev"

def fullRef (short : String) : String :=
  "refs/heads/" ++ short

/-- One branch's fate in this block. -/
inductive StagedRef
  | packed (head : Oid) (digest : Digest)
  | delete

/-- One repo's catch-up map: a branch's committed head and the pack it rides. -/
abbrev PendingMap := ExtTreeMap String (Oid × Digest)

/-- One repo's state: the committed branches, the fates staged this block, the committed heads whose
objects are not yet on disk, and the pending branches whose pack was installed. -/
structure RepoState where
  refs : ExtTreeMap String Oid := ∅
  staged : ExtTreeMap String StagedRef := ∅
  pending : PendingMap := ∅
  installed : List String := []

/-- What the forge asks of libgit2 about the repository in a directory, with the errors it reports. -/
structure Git (Disk : Type) where
  openOrInit : Disk → Except Error Disk
  resolveRef : Disk → String → Except Error (Option Oid)
  deleteRef : Disk → String → Except Error Disk
  /-- A pack that does not install may leave junk behind. -/
  installPack : Disk → Bytes → Bool × Disk
  verifyClosure : Disk → Oid → Bool
  isDescendant : Disk → Oid → Oid → Bool
  updateRef : Disk → String → Oid → Option Disk

/-- The node's body store. -/
abbrev Bodies := Digest → Option Bytes

variable {Disk : Type} (git : Git Disk)

/-- `advance_ref`: move the ref once the head's closure is complete. Why it refuses is only logged. -/
def advanceRef (disk : Disk) (refname : String) (head : Oid) (prior : Option Oid) (requireFf : Bool) :
    Option Disk :=
  if git.verifyClosure disk head = false then none
  else if requireFf ∧ prior.any (git.isDescendant disk head · = false) then none
  else git.updateRef disk refname head

/-- One pending branch of `materialize`: whether it has caught up. -/
def catchUp (bodies : Bodies) (branch : String) (target : Oid × Digest) (installed : List String)
    (disk : Disk) : Except Error (Bool × List String × Disk) := do
  let prior ← git.resolveRef disk (fullRef branch)
  let advance (installed : List String) (disk : Disk) : Except Error (Bool × List String × Disk) :=
    match advanceRef git disk (fullRef branch) target.1 prior (isProtectedBranch branch) with
    | some disk => .ok (true, installed, disk)
    | none => .ok (false, installed, disk)
  if prior = some target.1 then .ok (true, installed, disk)
  else if branch ∈ installed then advance installed disk
  else match bodies target.2 with
    | none => advance installed disk
    | some pack => match git.installPack disk pack with
      | (false, disk) => .ok (false, branch :: installed, disk)
      | (true, disk) => advance (branch :: installed) disk

/-- The pending branches in turn; the ones that have caught up. -/
def catchUpAll (bodies : Bodies) : List (String × Oid × Digest) → List String → Disk →
    Except Error (List (String × Oid × Digest) × List String × Disk)
  | [], installed, disk => .ok ([], installed, disk)
  | (branch, target) :: rest, installed, disk => do
      let (caught, installed, disk) ← catchUp git bodies branch target installed disk
      let (done, installed, disk) ← catchUpAll bodies rest installed disk
      .ok (if caught then (branch, target) :: done else done, installed, disk)

/-- A pending branch rides the pack. -/
abbrev Waits (pending : PendingMap) (digest : Digest) : Prop :=
  digest ∈ pending.toList.map (·.2.2)

/-- `RepoState::materialize`: catch the pending branches up, then release the packs of those that did
unless another branch of this repo still waits for them. -/
def materialize (state : RepoState) (disk : Disk) (bodies : Bodies) :
    Except Error (RepoState × Disk × Bodies) :=
  if state.pending.isEmpty then .ok (state, disk, bodies) else do
    let disk ← git.openOrInit disk
    let (done, installed, disk) ← catchUpAll git bodies state.pending.toList state.installed disk
    let pending := state.pending.filter fun branch _ => branch ∉ done.map (·.1)
    let installed := installed.filter (· ∉ done.map (·.1))
    let bodies digest :=
      if digest ∈ done.map (·.2.2) ∧ ¬ Waits pending digest then none else bodies digest
    .ok ({ state with pending, installed }, disk, bodies)

/-- Publish the staged fates in turn. -/
def publishFates : List (String × StagedRef) → RepoState → Disk → Except Error (RepoState × Disk)
  | [], state, disk => .ok (state, disk)
  | (branch, .packed head digest) :: fates, state, disk =>
      publishFates fates { state with
        refs := state.refs.insert branch head
        pending := state.pending.insert branch (head, digest)
        installed := state.installed.filter (· ≠ branch) } disk
  | (branch, .delete) :: fates, state, disk => do
      let disk ← git.openOrInit disk
      let disk ← git.deleteRef disk (fullRef branch)
      publishFates fates { state with
        refs := state.refs.erase branch
        pending := state.pending.erase branch
        installed := state.installed.filter (· ≠ branch) } disk

/-- `RepoState::publish`. -/
def publish (state : RepoState) (disk : Disk) (bodies : Bodies) :
    Except Error (RepoState × Disk × Bodies) := do
  let (state, disk) ← publishFates git state.staged.toList { state with staged := ∅ } disk
  materialize git state disk bodies

/-- A repository: its name, its state and its directory. -/
structure Repo (Disk : Type) where
  name : String
  state : RepoState
  disk : Disk

/-- The module: its repositories, and the node's body store. -/
structure ForgeModule (Disk : Type) where
  repos : List (Repo Disk) := []
  bodies : Bodies

/-- A pass over one repo. -/
abbrev RepoPass (Disk : Type) := RepoState → Disk → Bodies → Except Error (RepoState × Disk × Bodies)

/-- A pass over every repo in turn. -/
def passRepos (pass : RepoPass Disk) : List (Repo Disk) → Bodies → Except Error (ForgeModule Disk)
  | [], bodies => .ok { bodies }
  | repo :: repos, bodies => do
      let (state, disk, bodies) ← pass repo.state repo.disk bodies
      let rest ← passRepos pass repos bodies
      .ok { rest with repos := { repo with state, disk } :: rest.repos }

/-- `Forge::publish_block`. -/
def publishBlock (forge : ForgeModule Disk) : Except Error (ForgeModule Disk) :=
  passRepos (publish git) forge.repos forge.bodies

/-- `Forge::materialize`. -/
def materializeAll (forge : ForgeModule Disk) : Except Error (ForgeModule Disk) :=
  passRepos (materialize git) forge.repos forge.bodies

/-! ## What one pass releases -/

/-- What a published fate makes of the catch-up map. -/
def put (pending : PendingMap) (fate : String × StagedRef) : PendingMap :=
  match fate.2 with
  | .packed head digest => pending.insert fate.1 (head, digest)
  | .delete => pending.erase fate.1

/-- The catch-up map once the staged fates are published. -/
def RepoState.published (state : RepoState) : PendingMap :=
  state.staged.toList.foldl put state.pending

/-- The pass starts from the catch-up map `targets`, waits on for some of its packs and releases the
others. -/
def Passes (pass : RepoPass Disk) (targets : RepoState → PendingMap) : Prop :=
  ∀ state disk bodies after, pass state disk bodies = .ok after → ∀ digest,
    (Waits after.1.pending digest → Waits (targets state) digest) ∧
    after.2.2 digest =
      if Waits (targets state) digest ∧ ¬ Waits after.1.pending digest then none else bodies digest

variable {git} {bodies : Bodies} {pass : RepoPass Disk} {targets : RepoState → PendingMap}
  {entries done : List (String × Oid × Digest)} {installed : List String}

theorem catchUpAll_subset {disk : Disk} {after : List String × Disk}
    (ran : catchUpAll git bodies entries installed disk = .ok (done, after)) : done ⊆ entries := by
  induction entries generalizing done installed disk with
  | nil => cases ran; simp
  | cons entry entries ih =>
    obtain ⟨⟨caught, _, _⟩, -, ran⟩ := bind_eq_ok.mp ran
    obtain ⟨⟨later, _, _⟩, rest, ran⟩ := bind_eq_ok.mp ran
    cases ran
    cases caught with
    | true => exact cons_subset_cons _ (ih rest)
    | false => exact subset_cons_of_subset _ (ih rest)

/-- What is left of a catch-up map once the branches of `done` are off it. -/
theorem waits_filter {pending : PendingMap} {digest : Digest} :
    Waits (pending.filter fun branch _ => branch ∉ done.map (·.1)) digest ↔
      ∃ entry ∈ pending.toList, entry.1 ∉ done.map (·.1) ∧ entry.2.2 = digest := by
  simp only [ExtTreeMap.toList_filter, mem_map, mem_filter, decide_eq_true_eq, and_assoc]

theorem materialize_passes : Passes (materialize git) RepoState.pending := by
  intro state disk bodies after ran digest
  unfold materialize at ran
  split at ran
  · cases ran
    simp
  obtain ⟨_, -, ran⟩ := bind_eq_ok.mp ran
  obtain ⟨⟨done, _, _⟩, caught, ran⟩ := bind_eq_ok.mp ran
  cases ran
  have among := catchUpAll_subset caught
  constructor
  · intro waits
    obtain ⟨entry, mem, -, rides⟩ := waits_filter.mp waits
    exact mem_map.mpr ⟨entry, mem, rides⟩
  -- a pack nobody waits for any more is one of a branch that caught up
  refine if_congr (and_congr_left fun unwanted => ⟨(map_subset _ among ·), fun waits => ?_⟩) rfl rfl
  obtain ⟨entry, mem, rides⟩ := mem_map.mp waits
  by_contra kept
  refine unwanted (waits_filter.mpr ⟨entry, mem, fun caught => kept ?_, rides⟩)
  obtain ⟨other, out, same⟩ := mem_map.mp caught
  have here := ExtTreeMap.mem_toList_iff_getElem?_eq_some.mp mem
  rw [← same, ExtTreeMap.mem_toList_iff_getElem?_eq_some.mp (among out)] at here
  exact mem_map.mpr ⟨other, out, (congrArg Prod.snd (Option.some.inj here)).trans rides⟩

theorem publishFates_pending {fates : List (String × StagedRef)} {state : RepoState} {disk : Disk}
    {after : RepoState × Disk} (ran : publishFates git fates state disk = .ok after) :
    after.1.pending = fates.foldl put state.pending := by
  induction fates generalizing state disk with
  | nil => cases ran; rfl
  | cons fate fates ih =>
    obtain ⟨branch, _ | _⟩ := fate
    · exact ih ran
    · obtain ⟨_, -, ran⟩ := bind_eq_ok.mp ran
      obtain ⟨_, -, ran⟩ := bind_eq_ok.mp ran
      exact ih ran

theorem publish_passes : Passes (publish git) RepoState.published := by
  intro state disk bodies after ran digest
  obtain ⟨mid, fates, ran⟩ := bind_eq_ok.mp ran
  rw [RepoState.published, ← publishFates_pending fates]
  exact materialize_passes _ _ _ _ ran digest

/-! ## What the passes over all repos release -/

/-- A turn of a pass, the repo before and after it, that releases the pack. -/
abbrev Releases (targets : RepoState → PendingMap) (digest : Digest) (turn : Repo Disk × Repo Disk) : Prop :=
  Waits (targets turn.1.state) digest ∧ ¬ Waits turn.2.state.pending digest

/-- **A pack is gone after the passes when one of their turns releases it.** -/
theorem passRepos_turns (passes : Passes pass targets) {repos : List (Repo Disk)} {after : ForgeModule Disk}
    (ran : passRepos pass repos bodies = .ok after) :
    ∃ turns : List (Repo Disk × Repo Disk), turns.map (·.1) = repos ∧ turns.map (·.2) = after.repos ∧
      (∀ turn ∈ turns, ∃ bodies bodies', pass turn.1.state turn.1.disk bodies =
        .ok (turn.2.state, turn.2.disk, bodies')) ∧
      ∀ digest, after.bodies digest =
        if ∃ turn ∈ turns, Releases targets digest turn then none else bodies digest := by
  induction repos generalizing bodies after with
  | nil =>
    cases ran
    exact ⟨[], rfl, rfl, by simp, by simp⟩
  | cons repo repos ih =>
    obtain ⟨⟨state, disk, mid⟩, first, ran⟩ := bind_eq_ok.mp ran
    obtain ⟨rest, later, ran⟩ := bind_eq_ok.mp ran
    cases ran
    obtain ⟨turns, befores, afters, each, released⟩ := ih later
    refine ⟨(repo, { repo with state, disk }) :: turns, congrArg _ befores, congrArg _ afters,
      forall_mem_cons.mpr ⟨⟨bodies, mid, first⟩, each⟩, fun digest => ?_⟩
    have one : mid digest = _ := (passes _ _ _ _ first digest).2
    rw [released digest, one]
    simp only [mem_cons, exists_eq_or_imp]
    by_cases there : ∃ turn ∈ turns, Releases targets digest turn
    · rw [if_pos there, if_pos (.inr there)]
    · rw [if_neg there]
      exact if_congr (or_iff_left there).symm rfl rfl

/-- A git substrate whose directories have every object or none, and no ref yet. -/
def wholeOrBare : Git Bool where
  openOrInit whole := .ok whole
  resolveRef _ _ := .ok none
  deleteRef whole _ := .ok whole
  installPack whole _ := (true, whole)
  verifyClosure whole _ := whole
  isDescendant _ _ _ := true
  updateRef whole _ _ := some whole

theorem catchUpAll_wholeOrBare (bodies : Bodies) (installed : List String) (whole : Bool) : ∃ installed',
    catchUpAll wholeOrBare bodies entries installed whole =
      .ok (if whole then entries else [], installed', whole) := by
  induction entries generalizing installed with
  | nil => exact ⟨installed, by cases whole <;> rfl⟩
  | cons entry entries ih =>
    obtain ⟨installed₁, first⟩ : ∃ installed₁,
        catchUp wholeOrBare bodies entry.1 entry.2 installed whole = .ok (whole, installed₁, whole) := by
      cases whole <;> by_cases known : entry.1 ∈ installed <;> cases held : bodies entry.2.2 <;>
        simp [catchUp, wholeOrBare, advanceRef, known, held, bind, Except.bind]
    obtain ⟨installed₂, rest⟩ := ih installed₁
    refine ⟨installed₂, ?_⟩
    rw [catchUpAll, first]
    show (catchUpAll _ _ _ _ _ >>= _) = _
    rw [rest]
    cases whole <;> rfl

/-- Over such a directory the pass catches every branch up, or none. -/
def Splits (pass : RepoPass Bool) (targets : RepoState → PendingMap) : Prop :=
  ∀ state whole bodies, ∃ after, pass state whole bodies = .ok after ∧
    ∀ digest, Waits (targets state) digest → (Waits after.1.pending digest ↔ whole = false)

theorem materialize_splits : Splits (materialize wholeOrBare) RepoState.pending := by
  intro state whole bodies
  unfold materialize
  split
  · rename_i empty
    refine ⟨_, rfl, fun digest waits => ?_⟩
    rw [ExtTreeMap.isEmpty_iff.mp empty] at waits
    cases waits
  · obtain ⟨installed, caught⟩ := catchUpAll_wholeOrBare bodies state.installed whole
    show ∃ after, (catchUpAll _ _ _ _ _ >>= _) = _ ∧ _
    rw [caught]
    refine ⟨_, rfl, fun digest waits => waits_filter.trans ?_⟩
    cases whole with
    | false => simpa using waits
    | true =>
      refine iff_of_false ?_ (by simp)
      rintro ⟨entry, mem, out, -⟩
      exact out (mem_map_of_mem mem)

theorem publish_splits : Splits (publish wholeOrBare) RepoState.published := by
  intro state whole bodies
  have total : ∀ fates start, ∃ mid, publishFates wholeOrBare fates start whole = .ok (mid, whole) := by
    intro fates
    induction fates with
    | nil => exact fun start => ⟨start, rfl⟩
    | cons fate fates ih =>
      obtain ⟨branch, _ | _⟩ := fate <;> exact fun start => ih _
  obtain ⟨mid, fates⟩ := total state.staged.toList { state with staged := ∅ }
  obtain ⟨after, ran, split⟩ := materialize_splits mid whole bodies
  refine ⟨after, ?_, ?_⟩
  · rw [publish, fates]
    exact ran
  · rw [RepoState.published, ← publishFates_pending fates]
    exact split

theorem passRepos_splits {pass : RepoPass Bool} (splits : Splits pass targets) (repos : List (Repo Bool))
    (bodies : Bodies) : ∃ after, passRepos pass repos bodies = .ok after := by
  induction repos generalizing bodies with
  | nil => exact ⟨_, rfl⟩
  | cons repo repos ih =>
    obtain ⟨first, ran, -⟩ := splits repo.state repo.disk bodies
    obtain ⟨rest, later⟩ := ih first.2.2
    exact ⟨_, bind_eq_ok.mpr ⟨first, ran, bind_eq_ok.mpr ⟨rest, later, rfl⟩⟩⟩

/-! ## When every pack waited for is kept -/

/-- **No pack is released early**: whatever the repositories hold on disk and whatever bytes the packs
have, after the call a pack that was held is still held if a branch of any repo waits for it. -/
def KeepsWaited (call : ∀ {Disk : Type}, Git Disk → ForgeModule Disk → Except Error (ForgeModule Disk))
    (repos : List (String × RepoState)) (held : Digest → Bool) : Prop :=
  ∀ (Disk : Type) (git : Git Disk) (forge after : ForgeModule Disk),
    forge.repos.map (fun repo => (repo.name, repo.state)) = repos →
    (∀ digest, (forge.bodies digest).isSome = held digest) → call git forge = .ok after →
    ∀ repo ∈ after.repos, ∀ digest, held digest = true → Waits repo.state.pending digest →
      (after.bodies digest).isSome = true

/-- No two of the repos have branches that ride the same held pack. -/
def Apart (targets : RepoState → PendingMap) (repos : List (String × RepoState)) (held : Digest → Bool) : Prop :=
  repos.Pairwise fun a b => ∀ digest, held digest = true →
    ¬ (Waits (targets a.2) digest ∧ Waits (targets b.2) digest)

theorem keeps_iff_apart {pass : ∀ {Disk : Type}, Git Disk → RepoPass Disk}
    (passes : ∀ {Disk : Type} (git : Git Disk), Passes (pass git) targets)
    (splits : Splits (pass wholeOrBare) targets) {repos : List (String × RepoState)} {held : Digest → Bool} :
    KeepsWaited (fun git forge => passRepos (pass git) forge.repos forge.bodies) repos held ↔
      Apart targets repos held := by
  constructor
  · intro keeps
    refine pairwise_iff_forall_sublist.mpr fun {a b} sub digest isHeld both => ?_
    obtain ⟨early, late, rfl, inEarly, inLate⟩ := cons_sublist_iff.mp sub
    -- the early repos have every object, the late ones none
    let forge : ForgeModule Bool :=
      { repos := early.map (fun r => ⟨r.1, r.2, true⟩) ++ late.map (fun r => ⟨r.1, r.2, false⟩)
        bodies := fun digest => if held digest then some [] else none }
    obtain ⟨after, ran⟩ := passRepos_splits splits forge.repos forge.bodies
    obtain ⟨turns, befores, afters, each, released⟩ := passRepos_turns (passes _) ran
    have turn : ∀ repo ∈ forge.repos, Waits (targets repo.state) digest → ∃ turn ∈ turns,
        turn.1 = repo ∧ (Waits turn.2.state.pending digest ↔ repo.disk = false) := by
      intro repo mem waits
      obtain ⟨turn, at_, rfl⟩ := mem_map.mp (befores ▸ mem)
      obtain ⟨bodies, bodies', ran⟩ := each turn at_
      obtain ⟨_, same, split⟩ := splits turn.1.state turn.1.disk bodies
      cases ran.symm.trans same
      exact ⟨turn, at_, rfl, split digest waits⟩
    obtain ⟨first, at_, eq, caught⟩ := turn ⟨a.1, a.2, true⟩ (by simp [forge, inEarly]) both.1
    obtain ⟨second, at_', -, waiting⟩ := turn ⟨b.1, b.2, false⟩
      (by simp [forge, singleton_sublist.mp inLate]) both.2
    have kept := keeps Bool wholeOrBare forge after (by simp [forge, Function.comp_def])
      (fun digest => by cases some : held digest <;> simp [forge, some]) ran second.2
      (afters ▸ mem_map_of_mem at_') digest isHeld (waiting.mpr rfl)
    have gone : ∃ turn ∈ turns, Releases targets digest turn :=
      ⟨first, at_, eq ▸ both.1, by simp [caught]⟩
    rw [released digest, if_pos gone] at kept
    cases kept
  · rintro apart Disk git forge after rfl some ran repo mem digest isHeld waits
    obtain ⟨turns, befores, afters, each, released⟩ := passRepos_turns (passes git) ran
    rw [released digest, if_neg, some, isHeld]
    rintro ⟨turn, at_, wanted, past⟩
    obtain ⟨waiting, at_', rfl⟩ := mem_map.mp (afters ▸ mem)
    obtain ⟨_, _, ran'⟩ := each waiting at_'
    have wanted' := (passes git _ _ _ _ ran' digest).1 waits
    rw [Apart, ← befores, map_map, pairwise_map] at apart
    exact @Pairwise.forall _ _ _ ⟨fun _ _ apart digest isHeld both => apart digest isHeld both.symm⟩ apart
      _ at_ _ at_' (fun same => past (same ▸ waits)) digest isHeld ⟨wanted, wanted'⟩

/-- **A pack is released only when nothing waits for it** exactly when no two repos have branches that
ride the same held pack, counting at `publish_block` the fates it publishes. -/
theorem pack_kept_iff (repos : List (String × RepoState)) (held : Digest → Bool) :
    (KeepsWaited publishBlock repos held ↔ Apart RepoState.published repos held) ∧
      (KeepsWaited materializeAll repos held ↔ Apart RepoState.pending repos held) :=
  ⟨keeps_iff_apart (fun _ => publish_passes) publish_splits,
    keeps_iff_apart (fun _ => materialize_passes) materialize_splits⟩

/-- A repo whose `main` was pushed in this block, with a pack of digest `07…07`. -/
def pushed : RepoState where
  staged := (∅ : ExtTreeMap String StagedRef).insert "main" (.packed (replicate 20 1) (replicate 32 7))

/-- Two repos that got the same push: the pass over `a` releases the pack `b` waits for. -/
theorem shared_pack_released :
    ¬ KeepsWaited publishBlock [("a", pushed), ("b", pushed)] (· = replicate 32 7) := by
  intro keeps
  have wait : Waits pushed.published (replicate 32 7) := by decide
  have apart := (keeps_iff_apart (fun _ => publish_passes) publish_splits).mp keeps
  exact (pairwise_cons.mp apart).1 _ mem_cons_self _ (by simp) ⟨wait, wait⟩

end Ducktape.Forge
