import Ducktape.Host.Aside
import Ducktape.Host.Isolation

/-! # Replaying a torn block

A block whose boundary was cut short left some stores `D` at its post-state and the others at its
pre-state (`torn`). Recovery re-runs it with the witness of the live run, standing its records in for
`D`. `submitBlockCommitting_iff` says when that reproduces the block: the replay counts only the
rolled-back units that reach a module outside `D`, so it stops at the unit the live block stopped at
only if the live block left nothing out or every unit it rolled back reaches outside `D`
(`BudgetAgrees`). -/

namespace Ducktape

open Lib Observing BlockRun Finset

variable {C O J J' : Type}

/-! ## A replay that opens too many units -/

section Overrun

variable {H : Host C O} {clock : BlockClock} {obs : Observation} {K : Nat}

/-- The injection is an entry of its own. -/
theorem drainInjection_fixed {prepared : PreparedWork} {b b' : BlockRun C O} {log : Log}
    (ended : drainInjection H clock prepared b = .ok (b', log)) :
    b'.observer.fixed = b.observer.beginUnit.2.fixed := by
  have ran := drainLoop_keeps H clock watch_keeps_fixed maxDispatches
    (prepared.advance.map fun msg => (Origin.system, Cause.direct, msg)).toList
    ⟨b.stages, b.observer.beginUnit.2⟩
  rw [← ran]
  obtain ⟨_, -, ended⟩ := bind_eq_ok.mp ended
  split at ended
  · cases ended
  · cases ended; rfl

/-- A replay that opened more units than its witness holds does not finish. -/
theorem Observing.finish_of_overrun {o : Observing} {substitute : Finset ModuleId} {n : Nat}
    {units : List Observed} (fixed : o.fixed = (.replay substitute, n, units))
    (more : n ≠ units.length) (witness : Witness) : o.finish ≠ .ok witness := by
  rw [← o.fixed_closeOpen] at fixed
  obtain ⟨mode, attempted, held⟩ : o.closeOpen.mode = .replay substitute ∧
      o.closeOpen.attempted = n ∧ o.closeOpen.units = units := by
    simp only [Observing.fixed, Prod.mk.injEq] at fixed
    obtain ⟨mode, attempted, held⟩ := fixed
    rw [mode] at held
    exact ⟨mode, attempted, held⟩
  have short : decide (o.closeOpen.attempted ≠ o.closeOpen.units.length) = true := by
    rw [attempted, held]; simpa using more
  simp only [Observing.finish, mode, short, Observing.diverge]
  cases o.closeOpen.divergence <;> simp

end Overrun

/-! ## The same block under another admission -/

/-- A block without a rejected member is the same in a batch. -/
theorem runUnits_batch {β : Type} {U : Units β} {wire : Wire} {admission : Admission}
    {ops : List BlockOp} {prepared : PreparedWork} {b : β} {r : Tables × β}
    (ended : runUnits U wire admission ops prepared b = .ok r) :
    runUnits U wire .batch ops prepared b = .ok r := by
  cases admission with
  | batch => exact ended
  | sole =>
    have turn : ∀ i op b r, memberTurn U .sole i op b = .ok r → memberTurn U .batch i op b = .ok r := by
      intro i op b r ended
      obtain ⟨⟨verdict, b'⟩, ran, ended⟩ := bind_eq_ok.mp ended
      refine bind_eq_ok.mpr ⟨_, ran, ?_⟩
      cases verdict with
      | accepted | unattempted => exact ended
      | rejected reason => cases ended
    have turns : ∀ (items : List BlockOp) i table b r,
        runTurns (memberTurn U .sole) i items table b = .ok r →
        runTurns (memberTurn U .batch) i items table b = .ok r := by
      intro items
      induction items with
      | nil => exact fun _ _ _ _ ended => ended
      | cons item items ih =>
        intro i table b r ended
        obtain ⟨done, ran, ended⟩ := bind_eq_ok.mp ended
        exact bind_eq_ok.mpr ⟨done, turn i item b done ran, ih _ _ _ _ ended⟩
    obtain ⟨done, ran, ended⟩ := bind_eq_ok.mp ended
    exact bind_eq_ok.mpr ⟨done, turns _ _ _ _ _ ran, ended⟩

/-! ## Exactness -/

/-- The host after a boundary that was cut short: the stores in `D` hold the block, the others do
not. -/
def torn (D : Finset ModuleId) (host host' : HostState C) : HostState C :=
  ⟨fun id => if id ∈ D then host'.committed id else host.committed id, host.clock⟩

/-- The block leaves no unit out for its replay budget, or rolls back only units that reach a module
outside `D`. -/
def BudgetAgrees (H : Host C O) (ctx : BlockContext) (admission : Admission) (ops : List BlockOp)
    (prepared : PreparedWork) (host : HostState C) (D : Finset ModuleId) : Prop :=
  ∀ tables s,
    runUnits (sequential H (ctx.clockOn host)) H.wire admission ops prepared
      (.start (H.registry.boundary host.committed)) = .ok (tables, s) →
    s.skipped = 0 ∨ ∀ r ∈ s.rollbacks, r.reaches D

section Exact

variable {H : Host C O} {hook : CommitWitness J} {hook' : CommitWitness J'} {ctx : BlockContext}
  {ops : List BlockOp} {prepared : PreparedWork} {admission : Admission}
  {host host' : HostState C} {sink sink' : J} {sink₁ : J'} {outcome : BatchOutcome}
  {D A : Finset ModuleId} {tables : Tables} {s : Sequential C O} {post : Stages C O} {t : List Trace}
  {log : Log} {now : HostState C} {commitOnly : Option (Finset ModuleId)} {b : BlockRun C O}
  {committed : ModuleId → C}

theorem LiveBlock.whole
    (block : LiveBlock H ctx ops prepared admission host host' outcome tables s post t log) :
    { outcome with rootHash := rootHash H host'.committed } = outcome := by
  rw [block.reported]

/-- A replay that stands no record in agrees with the live block on the replay budget. -/
theorem LiveBlock.budgetAgrees_empty
    (block : LiveBlock H ctx ops prepared admission host host' outcome tables s post t log) :
    BudgetAgrees H ctx admission ops prepared host ∅ := by
  intro tables' s' ran
  obtain ⟨-, rfl⟩ : tables = tables' ∧ s = s' := by simpa using block.units.symm.trans ran
  exact .inr block.reached

/-- The stores in `D` as they are now, the others as the block left them. -/
def rejoin (D : Finset ModuleId) (now host' : HostState C) : HostState C :=
  ⟨fun id => if id ∈ D then now.committed id else host'.committed id, host'.clock⟩

theorem spares_empty (D : Finset ModuleId) (units : List Observed) : Spares D ∅ units :=
  fun _ _ _ _ mem => absurd mem (notMem_empty _)

theorem rejoin_torn : rejoin D (torn D host host') host' = host' := by
  have same : (fun id => if id ∈ D then (torn D host host').committed id else host'.committed id)
      = host'.committed := by
    funext id
    by_cases past : id ∈ D <;> simp [torn, past]
  simp only [rejoin, same]

section

variable (block : LiveBlock H ctx ops prepared admission host host' outcome tables s post t log)
include block

/-- A replay over the live witness keeps in step with the live block to its last unit, or opens a
unit that the live block left out. -/
theorem LiveBlock.follows (same : ∀ id ∉ D, committed id = host.committed id) :
    (∃ b, runUnits (hostUnits H (ctx.clockOn host)) H.wire .batch ops
        prepared (.start (H.registry.boundary committed) (.journaled outcome.witness D))
          = .ok (tables, b) ∧
      Settled H (ctx.clockOn host) (.journaled outcome.witness D)
        (H.registry.boundary host.committed) (H.registry.boundary committed) s b) ∨
    ((0 < s.skipped ∧ ∃ r ∈ s.rollbacks, ¬ r.reaches D) ∧
      ∀ tables' b, runUnits (hostUnits H (ctx.clockOn host)) H.wire .batch
        ops prepared (.start (H.registry.boundary committed) (.journaled outcome.witness D))
          = .ok (tables', b) →
        Overrun (.journaled outcome.witness D) outcome.witness.units.length b) := by
  have held : outcome.witness = ⟨s.units ++ [⟨t⟩]⟩ := by rw [block.reported]
  have tracks := runUnits_tracks
    (hostUnits_lockstep H (ctx.clockOn host) (.journaled outcome.witness D)
      (H.registry.boundary committed) outcome.witness.units.length
      (atBoundary_boundary H host.committed)) H.wire .batch ops prepared
    (Sequential.start (H.registry.boundary host.committed))
    (start (H.registry.boundary committed) (.journaled outcome.witness D))
  have agree : Agree D (H.registry.boundary committed) (H.registry.boundary host.committed) := by
    intro id out
    simp only [Registry.boundary, same id out]
  have follows := tracks.follows (settled_start H _ _ _ _ agree)
  rw [runUnits_batch block.units] at follows
  have covered : Recorded (.journaled outcome.witness D) outcome.witness.units.length s := by
    rw [Recorded, block.landed, held]
    exact ⟨List.prefix_append _ _, fun _ _ _ => by simp⟩
  obtain ⟨b, units, settled⟩ | ⟨parted, overrun⟩ := follows covered
  · exact .inl ⟨b, units, settled⟩
  · obtain ⟨-, skipped, r, mem, passed⟩ := parted
    exact .inr ⟨⟨skipped, r, mem, Bool.not_eq_true _ ▸ passed⟩, overrun⟩

variable
  (units : runUnits (hostUnits H (ctx.clockOn host)) H.wire .batch ops
    prepared (.start (H.registry.boundary committed) (.journaled outcome.witness D)) = .ok (tables, b))
  (settled : Settled H (ctx.clockOn host) (.journaled outcome.witness D)
    (H.registry.boundary host.committed) (H.registry.boundary committed) s b)
include units settled

/-- What a replay in step with the live block to its last unit stages: the live block, with the stores
in `D` as they are. -/
theorem LiveBlock.stages :
    ∃ b', stageBlock H (ctx.clockOn host) ops prepared
        (.journaled outcome.witness D) .batch committed
          = .ok (fillSlots prepared tables s.accepted, b', log.cut D, outcome.witness) ∧
      b'.touched = (s.touched ∪ log.touched) \ D ∧ b'.accepted = s.accepted ∧
      b'.stages = keep D (H.registry.boundary committed) post := by
  have held : outcome.witness = ⟨s.units ++ [⟨t⟩]⟩ := by rw [block.reported]
  have complete : (Observation.journaled outcome.witness D).held (s.units ++ [⟨t⟩])
      = s.units ++ [⟨t⟩] := by rw [held]; rfl
  obtain ⟨o, stands, drained⟩ := settled.injects block.injected (by rw [held]; exact List.prefix_rfl)
  have finished := stands.finish complete
  refine ⟨b.ran ⟨keep D (H.registry.boundary committed) post, o⟩ (log.cut D), ?_, ?_,
    settled.accepted, rfl⟩
  · refine bind_eq_ok.mpr ⟨_, units, bind_eq_ok.mpr ⟨_, drained, ?_⟩⟩
    simp only [ran, finished, settled.accepted, Observation.substituted, ← held]
  · simp only [ran, settled.touched, Log.cut, Observation.substituted, union_sdiff_distrib]

/-- A replay in step with the live block to its last unit reproduces it, also where the host stands
elsewhere at modules `A` it does not execute. -/
theorem LiveBlock.reproduces (spares : Spares D A outcome.witness.units)
    (same : ∀ id ∉ D, id ∉ A → now.committed id = host.committed id)
    (commits : ∀ id ∈ H.registry.ids, id ∉ D → commitOnly.all (id ∈ ·))
    (recorded : (hook'.record ctx.height outcome.witness sink₁).1 = .ok ())
    (beside : ∀ id ∉ A, now.committed id = committed id) :
    applyBlock H hook' ctx ops prepared (.journaled outcome.witness D) .batch commitOnly now sink₁
      = (.ok { outcome with rootHash := rootHash H (rejoin (D ∪ A) now host').committed },
          rejoin (D ∪ A) now host', (hook'.record ctx.height outcome.witness sink₁).2) := by
  obtain ⟨b₁, staged, touched, accepted, stages⟩ := block.stages units settled
  obtain ⟨b₂, staged, run⟩ := stageBlock_aside H (ctx.clockOn host) now.clock
    ops prepared spares .batch beside staged
  obtain ⟨sink₂, sunk⟩ : ∃ sink₂, hook'.record ctx.height outcome.witness sink₁ = (.ok (), sink₂) :=
    ⟨_, Prod.ext recorded rfl⟩
  have recommitted : commitBoundary H b₂.touched commitOnly b₂.stages H.registry.ids now.committed
      = (.ok (), (rejoin (D ∪ A) now host').committed) := by
    refine (commitBoundary_ok H.registry.nodup).mpr ⟨fun id _ commits => ?_, fun id out => ?_⟩
    · have mem : id ∈ b₁.touched := run.touched ▸ commits.1
      have apart := run.outside id mem
      rw [touched] at mem
      obtain ⟨mem, out⟩ := mem_sdiff.mp mem
      simpa [run.agree id apart, stages, keep, rejoin, out, apart] using block.folds id mem
    · by_cases past : id ∈ D ∪ A
      · simp only [rejoin, past, if_true]
      · obtain ⟨outD, outA⟩ : id ∉ D ∧ id ∉ A := by simpa using past
        simp only [rejoin, past, same id outD outA]
        refine block.kept id fun mem => out ?_
        have registered := block.registered id mem
        refine ⟨registered, ?_, commits id registered outD⟩
        rw [run.touched, touched]
        exact mem_sdiff.mpr ⟨mem, outD⟩
  simp only [applyBlock, staged, sunk, recommitted]
  simp only [run.accepted, accepted, Log.cut, rejoin, block.clock]
  rw [block.reported]

end

variable (hook' sink₁) in
/-- **A replay reproduces the live block**, from any host that stands where the live one stood outside
`D` and outside modules `A` the block executes nowhere, whatever its clock: it returns the live outcome
and brings the stores outside `D` and `A` to the live post-state. -/
theorem LiveBlock.replays
    (block : LiveBlock H ctx ops prepared admission host host' outcome tables s post t log)
    (agrees : BudgetAgrees H ctx admission ops prepared host D)
    (spares : Spares D A outcome.witness.units)
    (same : ∀ id ∉ D, id ∉ A → now.committed id = host.committed id)
    (commits : ∀ id ∈ H.registry.ids, id ∉ D → commitOnly.all (id ∈ ·))
    (recorded : (hook'.record ctx.height outcome.witness sink₁).1 = .ok ()) :
    applyBlock H hook' ctx ops prepared (.journaled outcome.witness D) .batch commitOnly now sink₁
      = (.ok { outcome with rootHash := rootHash H (rejoin (D ∪ A) now host').committed },
          rejoin (D ∪ A) now host', (hook'.record ctx.height outcome.witness sink₁).2) := by
  -- the host with the modules of `A` where the live one had them
  let committed : ModuleId → C := fun id => if id ∈ A then host.committed id else now.committed id
  have beside : ∀ id ∉ A, now.committed id = committed id := fun id out => (if_neg out).symm
  have moved : ∀ id ∉ D, committed id = host.committed id := by
    intro id out
    by_cases aside : id ∈ A
    · exact if_pos aside
    · exact (if_neg aside).trans (same id out aside)
  obtain ⟨b, units, settled⟩ | ⟨⟨skipped, r, mem, missed⟩, -⟩ := block.follows moved
  · exact block.reproduces units settled spares same commits recorded beside
  · rcases agrees tables s block.units with none | all
    · omega
    · exact absurd (all r mem) missed

variable (H hook hook' ctx ops prepared admission host sink sink₁ D) in
/-- **A torn block replays exactly if and only if the replay budget agrees.** -/
theorem submitBlockCommitting_iff
    (live : applyBlock H hook ctx ops prepared .live admission none host sink
      = (.ok outcome, host', sink'))
    (stored : D ⊆ H.registry.ids.toFinset)
    (recorded : (hook'.record ctx.height outcome.witness sink₁).1 = .ok ()) :
    (∃ sink₂, submitBlockCommitting H hook' ctx ops prepared (some outcome.witness)
        (H.registry.ids.toFinset \ D) (torn D host host') sink₁ = (.ok outcome, host', sink₂)) ↔
      BudgetAgrees H ctx admission ops prepared host D := by
  obtain ⟨tables, -, s, post, t, log, -, -, block⟩ := applyBlock_settles live
  simp only [submitBlockCommitting, Finset.sdiff_sdiff_eq_self stored]
  have same : ∀ id ∉ D, (torn D host host').committed id = host.committed id :=
    fun id out => by simp only [torn, out, if_false]
  have commits : ∀ id ∈ H.registry.ids, id ∉ D →
      (some (H.registry.ids.toFinset \ D)).all (id ∈ ·) := fun id mem out => by simp [mem, out]
  obtain ⟨b, units, settled⟩ | ⟨⟨skipped, r, mem, missed⟩, overrun⟩ := block.follows same
  · have reproduced := block.reproduces units settled (spares_empty D _) (fun id out _ => same id out)
      commits recorded fun _ _ => rfl
    rw [Finset.union_empty, rejoin_torn] at reproduced
    rw [block.whole] at reproduced
    refine ⟨fun _ tables' s' ran => ?_, fun _ => ⟨_, reproduced⟩⟩
    obtain ⟨-, rfl⟩ : tables = tables' ∧ s = s' := by simpa using block.units.symm.trans ran
    exact (Nat.eq_zero_or_pos s.skipped).imp_right fun skipped => (settled.agreed skipped).2
  · -- a replay that opened a unit the live block left out does not return
    refine ⟨fun ⟨sink₂, ended⟩ => ?_, fun agrees => ?_⟩
    · obtain ⟨tables', b, b', log', witness, units, injected, finished, -, -, -⟩ := applyBlock_ok ended
      obtain ⟨n, enough, fixed⟩ := overrun tables' b units
      have grown := drainInjection_fixed injected
      rw [fixed_beginUnit, fixed] at grown
      refine (finish_of_overrun grown ?_ witness finished).elim
      simp only [Observation.held]
      omega
    rcases agrees tables s block.units with none | all
    · omega
    · exact absurd (all r mem) missed

theorem submitBlockCommitting_iff_tally :
    ∃ outcome host' sink₂,
      submitBlockPrepared tallyHost noWitness ⟨1, 1⟩ tallyOps default tallyStart ()
        = (.ok outcome, host', ()) ∧ host'.committed "left" = 1 ∧
      submitBlockCommitting tallyHost noWitness ⟨1, 1⟩ tallyOps default (some outcome.witness)
        (tallyHost.registry.ids.toFinset \ {"left"}) (torn {"left"} tallyStart host') ()
        = (.ok outcome, host', sink₂) := by
  have replays := submitBlockCommitting_iff tallyHost noWitness noWitness ⟨1, 1⟩ tallyOps default .batch
    tallyStart () () {"left"} rfl (by decide) rfl
  obtain ⟨sink₂, replayed⟩ := replays.mpr fun tables s ran => .inl (by cases ran; rfl)
  exact ⟨_, _, sink₂, rfl, rfl, replayed⟩

/-- Nine refused counts at a module that holds the block already, then one more unit. -/
def budgetOps : List BlockOp :=
  countOp "left" :: List.replicate 9 (refusedOp "left") ++ [countOp "right"]

theorem submitBlockCommitting_budget_differs :
    ∃ outcome host' fault host'',
      submitBlockPrepared tallyHost noWitness ⟨1, 1⟩ budgetOps default tallyStart ()
        = (.ok outcome, host', ()) ∧ host'.committed "left" = 1 ∧
      submitBlockCommitting tallyHost noWitness ⟨1, 1⟩ budgetOps default (some outcome.witness)
        (tallyHost.registry.ids.toFinset \ {"left"}) (torn {"left"} tallyStart host') ()
        = (.error (.fatal fault), host'', ()) :=
  ⟨_, _, _, _, rfl, rfl, rfl⟩

end Exact

end Ducktape
