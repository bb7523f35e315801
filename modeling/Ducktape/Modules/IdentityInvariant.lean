import Ducktape.Lib.Forest
import Ducktape.Modules.IdentitySteps

/-! # The registry's invariant

`Consistent s`: accounts are numbered without gaps, the key index is the inverse of the
associations, a key-held account has between one and the maximum number of keys, the controller
pointers form a forest, and each controlled set is the inverse image of the pointers.

* `consistent_run`: every run of operations from the empty store keeps it.
* `controllerChain_ends`: the walk up the controllers ends at a key-held account.
* `Effect.moves`, `revoked_frozen`: a control mutation advances the generation or revokes, and a
  revoked account never changes. -/

namespace Ducktape.Identity

open Lib Function Std ExtTreeMap ControlRecord Option List Key

/-! ## What the invariant is about -/

/-- The controller pointers: an account is absent, key-held, or names a controller. -/
def link (accounts : AccountNumber → Option AccountRecord) (number : AccountNumber) :
    Option (Option AccountNumber) :=
  (accounts number).map fun record => record.control.controller

/-- The association of a key-held record. -/
def ControlRecord.keys? : ControlRecord → Option Association
  | .keys association => some association
  | .program _ | .revoked _ => none

/-- The associations of the key-held accounts. -/
def keysOf (accounts : AccountNumber → Option AccountRecord) (number : AccountNumber) :
    Option Association :=
  (accounts number).bind fun record => record.control.keys?

/-- The registry's records agree with each other. -/
structure Consistent (s : Store) : Prop where
  /-- The first number is 1. -/
  positive : 1 ≤ nextNumber s
  /-- The accounts are exactly the numbers below the next one. -/
  numbered : ∀ n : Nat, (account s n).isSome ↔ 1 ≤ n ∧ n < nextNumber s
  /-- A key names an account exactly when that account's association holds it. -/
  indexed : ∀ key n, ownerOfKey s key = some n ↔ ∃ keys, keysOf (account s) n = some keys ∧ key ∈ keys
  /-- A key-held account has a key, and no more than the maximum. -/
  sized : ∀ n keys, keysOf (account s) n = some keys → 1 ≤ keys.size ∧ keys.size ≤ maxKeysPerAccount
  /-- The controllers above an account lead to a key-held one. -/
  forest : ∀ n, (account s n).isSome → Grounded (link (account s)) n
  /-- A controlled set holds exactly the accounts that name the controller. -/
  controlled : ∀ c n, n ∈ controlledBy s c ↔ link (account s) n = some (some c)

/-! ## How writes show in the reads -/

section reads

variable (s : Store) {key : Key} (value : Value key)

@[simp] theorem account_put_acct (n : AccountNumber) (record : AccountRecord) :
    account (put s (.acct n) record) = update (account s) n (some record) := by
  funext m
  rcases eq_or_ne m n with rfl | same <;> simp [account, *]

@[simp] theorem account_put (other : ∀ n, acct n ≠ key) : account (put s key value) = account s :=
  funext fun n => put_of_ne s (other n) value

@[simp] theorem account_drop (other : ∀ n, acct n ≠ key) : account (drop s key) = account s :=
  funext fun n => drop_of_ne s (other n)

@[simp] theorem ownerOfKey_put_keyOwner (pubkey : Bytes) (n : AccountNumber) :
    ownerOfKey (put s (.keyOwner pubkey) n) = update (ownerOfKey s) pubkey (some n) := by
  funext m
  rcases eq_or_ne m pubkey with rfl | same <;> simp [ownerOfKey, *]

@[simp] theorem ownerOfKey_drop_keyOwner (pubkey : Bytes) :
    ownerOfKey (drop s (.keyOwner pubkey)) = update (ownerOfKey s) pubkey none := by
  funext m
  rcases eq_or_ne m pubkey with rfl | same <;> simp [ownerOfKey, *]

@[simp] theorem ownerOfKey_put (other : ∀ pubkey, keyOwner pubkey ≠ key) :
    ownerOfKey (put s key value) = ownerOfKey s :=
  funext fun n => put_of_ne s (other n) value

@[simp] theorem keyGen_put_keyGen (pubkey : Bytes) (n : Nat) :
    keyGen (put s (.keyGen pubkey) n) = update (keyGen s) pubkey n := by
  funext m
  rcases eq_or_ne m pubkey with rfl | same <;> simp [keyGen, *]

@[simp] theorem keyGen_put (other : ∀ pubkey, Key.keyGen pubkey ≠ key) :
    keyGen (put s key value) = keyGen s := by
  funext n
  rw [keyGen, put_of_ne s (other n), keyGen]

@[simp] theorem keyGen_drop (other : ∀ pubkey, Key.keyGen pubkey ≠ key) :
    keyGen (drop s key) = keyGen s := by
  funext n
  rw [keyGen, drop_of_ne s (other n), keyGen]

@[simp] theorem controlledBy_put_controlled (c : AccountNumber) (set : ControlledSet) :
    controlledBy (put s (.controlled c) set) = update (controlledBy s) c set := by
  funext m
  rcases eq_or_ne m c with rfl | same <;> simp [controlledBy, *]

@[simp] theorem controlledBy_put (other : ∀ c, controlled c ≠ key) :
    controlledBy (put s key value) = controlledBy s := by
  funext n
  rw [controlledBy, put_of_ne s (other n), controlledBy]

@[simp] theorem controlledBy_drop (other : ∀ c, controlled c ≠ key) :
    controlledBy (drop s key) = controlledBy s := by
  funext n
  rw [controlledBy, drop_of_ne s (other n), controlledBy]

@[simp] theorem nextNumber_put_nextNumber (n : AccountNumber) :
    nextNumber (put s .nextNumber n) = n := by
  simp [nextNumber]

@[simp] theorem nextNumber_put (other : Key.nextNumber ≠ key) :
    nextNumber (put s key value) = nextNumber s := by
  rw [nextNumber, put_of_ne s other, nextNumber]

@[simp] theorem nextNumber_drop (other : Key.nextNumber ≠ key) :
    nextNumber (drop s key) = nextNumber s := by
  rw [nextNumber, drop_of_ne s other, nextNumber]

variable (accounts : AccountNumber → Option AccountRecord) (n : AccountNumber)
  (record : AccountRecord)

@[simp] theorem link_update :
    link (update accounts n (some record))
      = update (link accounts) n (some record.control.controller) := by
  funext m
  by_cases same : m = n <;> simp [link, same]

@[simp] theorem keysOf_update :
    keysOf (update accounts n (some record)) = update (keysOf accounts) n record.control.keys? := by
  funext m
  by_cases same : m = n <;> simp [keysOf, same]

end reads

/-! ## Small facts -/

variable {keys : Association} {info : KeyMeta}

theorem mem_insert_iff {key other : Bytes} :
    other ∈ keys.insert key info ↔ other = key ∨ other ∈ keys := by
  rw [mem_insert, Std.compare_eq_iff_eq, eq_comm]

theorem mem_erase_iff {key other : Bytes} :
    other ∈ keys.erase key ↔ other ≠ key ∧ other ∈ keys := by
  rw [mem_erase, Ne, Std.compare_eq_iff_eq, eq_comm]

variable {n : AccountNumber} {s : Store}

theorem isSome_account_iff : (account s n).isSome ↔ link (account s) n ≠ none := by
  cases found : account s n <;> simp [link, found]
variable {record : AccountRecord}

theorem keysOf_of_stored (stored : account s n = some record) :
    keysOf (account s) n = record.control.keys? := by
  simp [keysOf, stored]

theorem link_of_stored (stored : account s n = some record) :
    link (account s) n = some record.control.controller := by
  simp [link, stored]

/-- The roots of the forest are the key-held accounts. -/
theorem link_eq_root_iff :
    link (account s) n = some none ↔ ∃ keys, keysOf (account s) n = some keys := by
  cases found : account s n with
  | none => simp [link, keysOf, found]
  | some record =>
    cases control : record.control <;> simp [link, keysOf, found, control, controller, keys?]

namespace Consistent

variable {s : Store} {n : AccountNumber} {record record' : AccountRecord} {key : Bytes}
  {keys : Association} {program : ProgramControl}

theorem account_next (kept : Consistent s) : account s (nextNumber s) = none := by
  have := kept.numbered (nextNumber s)
  cases found : account s (nextNumber s) with
  | none => rfl
  | some _ => simp [found] at this

theorem link_next (kept : Consistent s) : link (account s) (nextNumber s) = none := by
  simp [link, kept.account_next]

theorem keysOf_next (kept : Consistent s) : keysOf (account s) (nextNumber s) = none := by
  simp [keysOf, kept.account_next]

/-- The genesis store is consistent. -/
theorem genesis : Consistent (fun _ => none) where
  positive := by simp [nextNumber]
  numbered n := by
    simp only [nextNumber, getD_none]
    constructor
    · intro absurd
      cases absurd
    · omega
  indexed key n := by simp [ownerOfKey, keysOf, account]
  sized n keys held := by simp [keysOf, account] at held
  forest n exists_ := by simp [account] at exists_
  controlled c n := by simp [controlledBy, link, account]

/-! ## Each operation keeps it -/

section

variable (kept : Consistent s)
include kept

/-- A change that keeps an account's controller and keys keeps the registry consistent. -/
theorem rewrite (stored : account s n = some record)
    (controller : record'.control.controller = record.control.controller)
    (keys : record'.control.keys? = record.control.keys?) : Consistent (put s (.acct n) record') := by
  have links : link (account (put s (.acct n) record')) = link (account s) := by
    simp [controller, ← link_of_stored stored]
  have held : keysOf (account (put s (.acct n) record')) = keysOf (account s) := by
    simp [keys, ← keysOf_of_stored stored]
  refine ⟨kept.positive, fun m => ?_, fun key m => ?_, fun m => ?_, fun m => ?_,
    fun c m => ?_⟩
  · rw [isSome_account_iff, links, ← isSome_account_iff]
    exact kept.numbered m
  · rw [held]
    exact kept.indexed key m
  · rw [held]
    exact kept.sized m
  · rw [isSome_account_iff, links, ← isSome_account_iff]
    exact kept.forest m
  · rw [links]
    exact kept.controlled c m

/-- A new account under the next number keeps the numbering. -/
theorem numbered_next (record : AccountRecord) (n : Nat) :
    (update (account s) (nextNumber s) (some record) n).isSome ↔ 1 ≤ n ∧ n < nextNumber s + 1 := by
  have positive := kept.positive
  by_cases same : n = nextNumber s
  · subst same
    simpa using positive
  · rw [update_of_ne same, kept.numbered n]
    omega

theorem create (fresh : ownerOfKey s key = none)
    (control : record.control = .keys ((∅ : Association).insert key info)) :
    Consistent (put (put (put s (.acct (nextNumber s)) record) (.keyOwner key) (nextNumber s))
      .nextNumber (nextNumber s + 1)) where
  positive := by simp
  numbered n := by simpa using kept.numbered_next record n
  indexed other n := by
    have unheld : ∀ m keys, keysOf (account s) m = some keys → key ∉ keys := by
      intro m keys held mem
      have := (kept.indexed key m).mpr ⟨keys, held, mem⟩
      simp [fresh] at this
    have indexed := kept.indexed other n
    simp only [ne_eq, reduceCtorEq, not_false_eq_true, implies_true, ownerOfKey_put,
      ownerOfKey_put_keyOwner, account_put, account_put_acct, keysOf_update, control,
      keys?]
    by_cases sameKey : other = key
    · subst sameKey
      by_cases sameNumber : n = nextNumber s
      · subst sameNumber
        simp
      simp only [update_self, some.injEq, update_of_ne sameNumber]
      constructor
      · intro same
        exact absurd same.symm sameNumber
      · rintro ⟨keys, held, mem⟩
        exact absurd mem (unheld n keys held)
    · rw [update_of_ne sameKey, indexed]
      by_cases sameNumber : n = nextNumber s
      · subst sameNumber
        simp [kept.keysOf_next, Ne.symm sameKey]
      · simp [update_of_ne sameNumber]
  sized n keys held := by
    by_cases same : n = nextNumber s
    · subst same
      simp [control, keys?] at held
      subst held
      simp [size_insert, maxKeysPerAccount]
    · simp [update_of_ne same] at held
      exact kept.sized n keys held
  forest n found := by
    have absent := kept.link_next
    simp [control]
    by_cases same : n = nextNumber s
    · subst same
      exact ⟨_, .root (update_self ..)⟩
    · simp [update_of_ne same] at found
      exact (kept.forest n found).extend absent _
  controlled c n := by
    have controlled := kept.controlled c n
    simp [control, controller]
    by_cases same : n = nextNumber s
    · subst same
      simpa [kept.link_next] using controlled
    · simpa [update_of_ne same] using controlled

/-- Rewriting one association and the index entry of one key keeps the registry consistent when the
two say the same. -/
theorem rekey {s' : Store} {keys' : Association} (key : Bytes) (owner : Option AccountNumber)
    (stored : account s n = some record) (control : record.control = .keys keys)
    (control' : record'.control = .keys keys')
    (accounts : account s' = update (account s) n (some record'))
    (owners : ownerOfKey s' = update (ownerOfKey s) key owner)
    (controllers : controlledBy s' = controlledBy s) (next : nextNumber s' = nextNumber s)
    (others : ∀ other, other ≠ key → (other ∈ keys' ↔ other ∈ keys))
    (agrees : ∀ m, owner = some m ↔ m = n ∧ key ∈ keys')
    (unheld : ∀ m keys, m ≠ n → keysOf (account s) m = some keys → key ∉ keys)
    (sized : 1 ≤ keys'.size ∧ keys'.size ≤ maxKeysPerAccount) : Consistent s' := by
  have was : keysOf (account s) n = some keys := by
    rw [keysOf_of_stored stored, control, keys?]
  have links : link (account s') = link (account s) := by
    rw [accounts, link_update, control']
    exact update_eq_self_iff.mpr (link_eq_root_iff.mpr ⟨keys, was⟩).symm
  have held : keysOf (account s') = update (keysOf (account s)) n (some keys') := by
    rw [accounts, keysOf_update, control', keys?]
  refine ⟨next ▸ kept.positive, fun m => ?_, fun other m => ?_, fun m found => ?_, fun m => ?_,
    fun c m => ?_⟩
  · rw [isSome_account_iff, links, ← isSome_account_iff, next, kept.numbered m]
  · rw [owners, held]
    by_cases sameKey : other = key
    · subst sameKey
      rw [update_self, agrees]
      by_cases sameNumber : m = n
      · subst sameNumber
        simp
      rw [update_of_ne sameNumber]
      refine iff_of_false (fun both => sameNumber both.1) ?_
      rintro ⟨found, holds, mem⟩
      exact unheld m found sameNumber holds mem
    · rw [update_of_ne sameKey, kept.indexed other m]
      by_cases sameNumber : m = n
      · subst sameNumber
        simp [was, others other sameKey]
      · rw [update_of_ne sameNumber]
  · rw [held]
    intro holds
    by_cases sameNumber : m = n
    · subst sameNumber
      rw [update_self, some_inj] at holds
      exact holds ▸ sized
    · rw [update_of_ne sameNumber] at holds
      exact kept.sized m found holds
  · rw [isSome_account_iff, links, ← isSome_account_iff]
    exact kept.forest m
  · rw [controllers, links]
    exact kept.controlled c m

theorem addKey {generation : Nat} (fresh : ownerOfKey s key = none)
    (stored : account s n = some record) (control : record.control = .keys keys)
    (control' : record'.control = .keys (keys.insert key info))
    (room : keys.size < maxKeysPerAccount) :
    Consistent (put (put (put s (.acct n) record') (.keyOwner key) n) (.keyGen key) generation) := by
  have was : keysOf (account s) n = some keys := by
    rw [keysOf_of_stored stored, control, keys?]
  have sized := kept.sized n keys was
  refine kept.rekey key (some n) stored control control' (by simp) (by simp) (by simp) (by simp)
    ?_ ?_ ?_ ?_
  · intro other ne
    rw [mem_insert_iff, or_iff_right ne]
  · simp [eq_comm]
  · intro m held _ found mem
    have := (kept.indexed key m).mpr ⟨held, found, mem⟩
    simp [fresh] at this
  · rw [size_insert]
    split <;> omega

theorem removeKey (stored : account s n = some record) (control : record.control = .keys keys)
    (control' : record'.control = .keys (keys.erase key)) (mem : key ∈ keys) (shared : keys.size ≠ 1) :
    Consistent (drop (put s (.acct n) record') (.keyOwner key)) := by
  have was : keysOf (account s) n = some keys := by
    rw [keysOf_of_stored stored, control, keys?]
  have sized := kept.sized n keys was
  refine kept.rekey key none stored control control' (by simp) (by simp) (by simp) (by simp)
    ?_ ?_ ?_ ?_
  · intro other ne
    rw [mem_erase_iff, and_iff_right ne]
  · simp
  · intro m held ne found mem'
    -- the key is in the index once, so no other association holds it
    have here := (kept.indexed key n).mpr ⟨keys, was, mem⟩
    have there := (kept.indexed key m).mpr ⟨held, found, mem'⟩
    exact ne (some.inj (there.symm.trans here))
  · rw [size_erase, if_pos (contains_iff_mem.mpr mem)]
    omega

theorem createProgram {controller : AccountNumber} {founder : AccountRecord}
    (stored : account s controller = some founder) (control : record.control = .program program)
    (names : program.controller = controller) :
    Consistent (put (put (put s (.acct (nextNumber s)) record) (.controlled controller)
      ((controlledBy s controller).insert (nextNumber s))) .nextNumber (nextNumber s + 1)) := by
  have absent := kept.link_next
  have links : link (update (account s) (nextNumber s) (some record))
      = update (link (account s)) (nextNumber s) (some (some controller)) := by
    rw [link_update, control, ControlRecord.controller, names]
  have held : keysOf (update (account s) (nextNumber s) (some record))
      = keysOf (account s) := by
    rw [keysOf_update, control]
    exact update_eq_self_iff.mpr kept.keysOf_next.symm
  refine ⟨by simp, fun n => by simpa using kept.numbered_next record n, fun key n => ?_,
    fun n keys => ?_, fun n found => ?_, fun c n => ?_⟩
  · simpa [held] using kept.indexed key n
  · simpa [held] using kept.sized n keys
  · simp only [ne_eq, reduceCtorEq, not_false_eq_true, implies_true, account_put, account_put_acct,
      links] at found ⊢
    by_cases same : n = nextNumber s
    · subst same
      obtain ⟨above, walk⟩ := kept.forest controller (by simp [stored])
      exact ⟨_, .step (update_self ..) (walk.update (fun mem => walk.defined mem absent) _)⟩
    · rw [update_of_ne same] at found
      exact (kept.forest n found).extend absent _
  · simp only [ne_eq, reduceCtorEq, not_false_eq_true, implies_true, account_put, account_put_acct,
      links, controlledBy_put, controlledBy_put_controlled]
    have controlled := kept.controlled c n
    by_cases same : n = nextNumber s
    · subst same
      by_cases sameController : c = controller
      · subst sameController
        simp
      · simp [update_of_ne sameController, controlled, absent, Ne.symm sameController]
    · rw [update_of_ne same, ← controlled]
      by_cases sameController : c = controller
      · subst sameController
        simp [Ne.symm same]
      · rw [update_of_ne sameController]

theorem transferControl {receiver : AccountNumber} {program' : ProgramControl}
    {chain : List AccountNumber} (stored : account s n = some record)
    (control : record.control = .program program) (control' : record'.control = .program program')
    (names : program'.controller = receiver) (moves : receiver ≠ program.controller)
    (walk : Chain (link (account s)) receiver chain) (acyclic : n ∉ chain) :
    Consistent (put (put (put s (.acct n) record') (.controlled program.controller)
      ((controlledBy s program.controller).erase n)) (.controlled receiver)
      ((controlledBy s receiver).insert n)) := by
  have was : link (account s) n = some (some program.controller) := by
    rw [link_of_stored stored, control, controller]
  have links : link (update (account s) n (some record'))
      = update (link (account s)) n (some (some receiver)) := by
    rw [link_update, control', controller, names]
  have held : keysOf (update (account s) n (some record')) = keysOf (account s) := by
    rw [keysOf_update, control', keys?]
    refine update_eq_self_iff.mpr ?_
    rw [keysOf_of_stored stored, control, keys?]
  have exists_iff : ∀ m, (update (account s) n (some record') m).isSome
      ↔ (account s m).isSome := by
    intro m
    by_cases same : m = n
    · subst same
      simp [stored]
    · rw [update_of_ne same]
  refine ⟨kept.positive, fun m => ?_, fun key m => ?_, fun m keys => ?_,
    fun m found => ?_, fun c m => ?_⟩
  · simpa [exists_iff] using kept.numbered m
  · simpa [held] using kept.indexed key m
  · simpa [held] using kept.sized m keys
  · simp only [ne_eq, reduceCtorEq, not_false_eq_true, implies_true, account_put, account_put_acct,
      links, exists_iff] at found ⊢
    exact (kept.forest m found).relink walk acyclic
  · simp only [ne_eq, reduceCtorEq, not_false_eq_true, implies_true, account_put, account_put_acct,
      links, controlledBy_put, controlledBy_put_controlled]
    have controlled := kept.controlled c m
    -- the account leaves its controller's set and enters the receiver's; no other set moves
    by_cases toReceiver : c = receiver
    · subst toReceiver
      by_cases same : m = n
      · subst same
        simp
      · simp [Ne.symm same, update_of_ne same, controlled]
    · rw [update_of_ne toReceiver]
      by_cases same : m = n
      · subst same
        by_cases giver : c = program.controller
        · subst giver
          simp [Ne.symm toReceiver]
        · simp [update_of_ne giver, controlled, was, Ne.symm toReceiver, Ne.symm giver]
      · rw [update_of_ne same, ← controlled]
        by_cases giver : c = program.controller
        · subst giver
          simp [Ne.symm same]
        · rw [update_of_ne giver]

end

end Consistent

/-! ## The walk up the controllers -/

section climb

variable {s : Store} {chain : List AccountNumber} {n : AccountNumber}

/-- A walk that ends has passed exactly the controllers above its start. -/
theorem chain_of_climb {fuel : Nat} {seen : List AccountNumber}
    (climbed : climb s fuel seen n = .ok chain) : Chain (link (account s)) n chain := by
  induction fuel generalizing seen n chain with
  | zero => cases climbed
  | succ fuel ih =>
    unfold climb at climbed
    split at climbed
    · cases climbed
    obtain ⟨record, found, climbed⟩ := bind_eq_ok.mp climbed
    have here := link_of_stored (storedAccount_eq_ok.mp found)
    split at climbed
    · rename_i top
      cases climbed
      exact .root (by rw [here, top])
    · rename_i up
      obtain ⟨rest, above, ended⟩ := bind_eq_ok.mp climbed
      cases ended
      exact .step (by rw [here, up]) (ih above)

/-- With as much fuel as the chain is long the walk ends. -/
theorem climb_of_chain (walk : Chain (link (account s)) n chain) :
    ∀ {fuel : Nat} {seen : List AccountNumber}, chain.length ≤ fuel → (∀ m ∈ chain, m ∉ seen) →
      climb s fuel seen n = .ok chain := by
  induction walk with
  | @root n top =>
    intro fuel seen enough unseen
    obtain ⟨fuel, rfl⟩ : ∃ k, fuel = k + 1 := ⟨fuel - 1, by simp at enough; omega⟩
    obtain ⟨record, stored, control⟩ := map_eq_some_iff.mp top
    rw [climb, if_neg (unseen n mem_cons_self), storedAccount_eq_ok.mpr stored]
    simp only [bind, Except.bind, control]
  | @step n up nodes next above ih =>
    intro fuel seen enough unseen
    obtain ⟨fuel, rfl⟩ : ∃ k, fuel = k + 1 := ⟨fuel - 1, by simp at enough; omega⟩
    obtain ⟨record, stored, control⟩ := map_eq_some_iff.mp next
    have fresh : n ∉ nodes := (nodup_cons.mp (Chain.step next above).nodup).1
    have rest : climb s fuel (n :: seen) up = .ok nodes := by
      refine ih (by simpa using enough) fun m mem => ?_
      rw [mem_cons, not_or]
      exact ⟨fun same => fresh (same ▸ mem), unseen m (mem_cons_of_mem _ mem)⟩
    rw [climb, if_neg (unseen n mem_cons_self), storedAccount_eq_ok.mpr stored]
    simp only [bind, Except.bind, control]
    rw [rest]

/-- A chain visits each account at most once, so it is no longer than the numbering. -/
theorem Consistent.chain_length (kept : Consistent s) (walk : Chain (link (account s)) n chain) :
    chain.length ≤ nextNumber s := by
  have below : chain ⊆ range (nextNumber s) := by
    intro m mem
    have found : (account s m).isSome := isSome_account_iff.mpr (walk.defined mem)
    exact mem_range.mpr ((kept.numbered m).mp found).2
  simpa using (subperm_of_subset walk.nodup below).length_le

/-- The walk up the controllers of an account ends at a key-held account. -/
theorem Consistent.controllerChain_ends (kept : Consistent s) (found : (account s n).isSome) :
    ∃ chain top keys, controllerChain s n = .ok chain ∧ chain.getLast? = some top ∧
      keysOf (account s) top = some keys := by
  obtain ⟨chain, walk⟩ := kept.forest n found
  obtain ⟨top, last, root⟩ := walk.ends_at_root
  obtain ⟨keys, held⟩ := link_eq_root_iff.mp root
  exact ⟨chain, top, keys, climb_of_chain walk (kept.chain_length walk) (by simp), last, held⟩

end climb

/-! ## Whole runs -/

section runs

variable {I : Identity} {s s' : Store} {env : Env} {msg : IdentityMsg} {n : AccountNumber}
  {record : AccountRecord}

/-- Every effect keeps the registry consistent. -/
theorem Consistent.effect (kept : Consistent s) (effect : Effect I s env msg s') :
    Consistent s' := by
  cases effect with
  | create _ fresh control => exact kept.create fresh control
  | addKey _ _ fresh _ _ _ stored control room => exact kept.addKey fresh stored control rfl room
  | removeKey _ _ stored control targeted shared =>
    refine kept.removeKey stored control rfl ?_ shared
    exact mem_iff_isSome_getElem?.mpr (by simp [targeted])
  | setName _ stored control | setProfile _ stored control =>
    exact kept.rewrite stored (by rw [control]) (by rw [control])
  | createProgram _ stored _ control => exact kept.createProgram stored control rfl
  | setProgramStanding _ stored control | revokeProgram _ stored control =>
    exact kept.rewrite stored (by rw [control]; rfl) (by rw [control]; rfl)
  | transferControl _ stored control moves _ _ climbed acyclic =>
    exact kept.transferControl stored control rfl rfl moves (chain_of_climb climbed) acyclic

/-- How one operation may move a program's control: not at all, to a later generation, or to
revocation under the controller that held it. -/
inductive Advances (program : ProgramControl) : ControlRecord → Prop
  | same : Advances program (.program program)
  | later {program' : ProgramControl} (generation : program.generation < program'.generation) :
      Advances program (.program program')
  | revoked : Advances program (.revoked program.controller)

/-- An account that acts is not revoked. -/
theorem Acts.not_revoked (kept : Consistent s) (acts : Acts s env n)
    (stored : account s n = some record) (c : AccountNumber) : record.control ≠ .revoked c := by
  intro control
  cases acts with
  | key _ owner =>
    obtain ⟨keys, held, -⟩ := (kept.indexed _ n).mp owner
    rw [keysOf_of_stored stored, control] at held
    cases held
  | program _ found isProgram =>
    rw [found] at stored
    cases stored
    rw [isProgram] at control
    cases control

/-- What one operation may do to an account: a program's control moves forward or stays, and a
revoked account keeps its whole record. -/
structure Moved (record record' : AccountRecord) : Prop where
  advances : ∀ program, record.control = .program program → Advances program record'.control
  frozen : ∀ c, record.control = .revoked c → record' = record

namespace Moved

variable {record record' : AccountRecord}

theorem refl (record : AccountRecord) : Moved record record :=
  ⟨fun _ control => control ▸ .same, fun _ _ => rfl⟩

/-- Nothing is asked of a key-held account. -/
theorem of_keys (control : record.control = .keys keys) :
    Moved record record' := by
  constructor <;> simp [control]

theorem of_program {program : ProgramControl} (control : record.control = .program program)
    (advances : Advances program record'.control) : Moved record record' := by
  constructor
  · intro other isProgram
    rw [control] at isProgram
    cases isProgram
    exact advances
  · simp [control]

end Moved

/-- An accepted operation keeps every account and only moves it forward. -/
theorem Effect.moves (kept : Consistent s) (effect : Effect I s env msg s')
    (stored : account s n = some record) :
    ∃ record', account s' n = some record' ∧ Moved record record' := by
  -- an operation founds an account under a new number or rewrites a stored one
  have founds {k : AccountNumber} (fresh : account s k = none) written :
      ∃ record', update (account s) k (some written) n = some record' ∧ Moved record record' := by
    refine ⟨record, ?_, .refl record⟩
    have other : n ≠ k := by
      rintro rfl
      rw [fresh] at stored
      cases stored
    rw [update_of_ne other, stored]
  have rewrites {k : AccountNumber} {old written : AccountRecord} (found : account s k = some old)
      (moved : Moved old written) :
      ∃ record', update (account s) k (some written) n = some record' ∧ Moved record record' := by
    by_cases same : n = k
    · subst same
      rw [found, some_inj] at stored
      subst stored
      exact ⟨written, update_self .., moved⟩
    · exact ⟨record, by rw [update_of_ne same, stored], .refl record⟩
  cases effect <;> simp only [ne_eq, reduceCtorEq, not_false_eq_true, implies_true, account_put,
    account_drop, account_put_acct]
  case create => exact founds kept.account_next _
  case createProgram => exact founds kept.account_next _
  case addKey found control _ _ _ _ => exact rewrites found (.of_keys control)
  case removeKey found control _ _ _ _ => exact rewrites found (.of_keys control)
  case setName acts found control | setProfile acts found control =>
    refine rewrites found ⟨fun program isProgram => ?_, fun c revoked => ?_⟩
    · rw [control, isProgram]
      exact .same
    · exact absurd revoked (acts.not_revoked kept found c)
  case setProgramStanding found control =>
    exact rewrites found (.of_program control (.later (Nat.lt_succ_self _)))
  case transferControl found control _ _ _ _ _ =>
    exact rewrites found (.of_program control (.later (Nat.lt_succ_self _)))
  case revokeProgram found control => exact rewrites found (.of_program control .revoked)

/-- The program account whose control a message changes. -/
def programNamed : IdentityMsg → Option AccountNumber
  | .setProgramStanding n _ | .transferControl n _ | .revokeProgram n => some n
  | .create .. | .addKey .. | .removeKey .. | .setName .. | .setProfile .. | .createProgram .. => none

/-- What an accepted control message makes of the program it names. The generation advances with the
standing also when the standing is the one it had; a revocation ends it. -/
inductive Mutates (program : ProgramControl) (n : AccountNumber) : IdentityMsg → ControlRecord → Prop
  | standing (standing : ProgramStanding) : Mutates program n (.setProgramStanding n standing)
      (.program { program with generation := program.generation + 1, standing := standing })
  | transfer (receiver : AccountNumber) : Mutates program n (.transferControl n receiver)
      (.program { program with generation := program.generation + 1, controller := receiver })
  | revoke : Mutates program n (.revokeProgram n) (.revoked program.controller)

/-- An accepted control message finds a program and mutates it. -/
theorem Effect.mutates (effect : Effect I s env msg s') (named : programNamed msg = some n) :
    ∃ record program record', account s n = some record ∧ record.control = .program program ∧
      account s' n = some record' ∧ Mutates program n msg record'.control := by
  cases effect <;> simp only [programNamed, reduceCtorEq, Option.some.injEq] at named <;> subst named <;>
    simp only [ne_eq, reduceCtorEq, not_false_eq_true, implies_true, account_put, account_put_acct, update_self]
  case setProgramStanding stored control => exact ⟨_, _, _, stored, control, rfl, .standing _⟩
  case transferControl stored control _ _ _ _ _ => exact ⟨_, _, _, stored, control, rfl, .transfer _⟩
  case revokeProgram stored control => exact ⟨_, _, _, stored, control, rfl, .revoke⟩

/-- The store before anything was done. -/
def genesis : StagedStore Key Value := .new fun _ => none

/-- The registry's records after a run of calls from genesis. -/
def after (I : Identity) (calls : List (Invocation IdentityMsg)) : Store :=
  (runCalls I.handle genesis calls).get

theorem consistent_run (I : Identity) (calls : List (Invocation IdentityMsg)) :
    Consistent (after I calls) := by
  have start : Consistent genesis.get := .genesis
  refine runCalls_invariant (P := fun staged => Consistent staged.get) calls ?_ start
  intro call _ staged staged' out kept accepted
  exact kept.effect (handle_effect (Invocation.accepted_iff.mp accepted))

/-- Along a run every account stays, and a revoked one keeps its record. -/
theorem revoked_frozen (I : Identity) (calls later : List (Invocation IdentityMsg)) {c : AccountNumber}
    (stored : account (after I calls) n = some record) (revoked : record.control = .revoked c) :
    account (after I (calls ++ later)) n = some record := by
  unfold after
  rw [runCalls_append]
  -- the invariant carries consistency along with the record
  refine (runCalls_invariant
    (P := fun staged => Consistent staged.get ∧ account staged.get n = some record)
    later ?_ ⟨consistent_run I calls, stored⟩).2
  rintro call - staged staged' out ⟨kept, found⟩ accepted
  have effect := handle_effect (Invocation.accepted_iff.mp accepted)
  obtain ⟨record', found', moved⟩ := effect.moves kept found
  exact ⟨kept.effect effect, by rw [found', moved.frozen c revoked]⟩

/-- In every state a run of identity operations reaches, the registry's records agree; the walk up
the controllers of any account ends at a key-held one; an accepted operation moves a program's
control only forward; one that names a program's control mutates it; and a revoked account never
changes again. -/
theorem registry_invariant (I : Identity) (calls : List (Invocation IdentityMsg)) :
    Consistent (after I calls) ∧
      (∀ n, (account (after I calls) n).isSome → ∃ chain top keys,
        controllerChain (after I calls) n = .ok chain ∧ chain.getLast? = some top ∧
          keysOf (account (after I calls)) top = some keys) ∧
      (∀ call n record program, account (after I calls) n = some record →
        record.control = .program program → ∃ record',
          account (after I (calls ++ [call])) n = some record' ∧ Advances program record'.control) ∧
      (∀ call n, programNamed call.msg = some n →
        (call.accepted I.handle (runCalls I.handle genesis calls)).isSome → ∃ record program record',
          account (after I calls) n = some record ∧ record.control = .program program ∧
            account (after I (calls ++ [call])) n = some record' ∧ Mutates program n call.msg record'.control) ∧
      (∀ later n record c, account (after I calls) n = some record →
        record.control = .revoked c → account (after I (calls ++ later)) n = some record) := by
  have kept := consistent_run I calls
  refine ⟨kept, fun n found => kept.controllerChain_ends found, ?_, ?_,
    fun later n record c stored revoked => revoked_frozen I calls later stored revoked⟩
  · intro call n record program stored control
    unfold after
    rw [runCalls_append, runCalls_cons]
    rcases Invocation.settle_cases I.handle (runCalls I.handle genesis calls) call with
      same | ⟨out, accepted⟩
    · rw [same]
      exact ⟨record, stored, control ▸ .same⟩
    · obtain ⟨record', found, moved⟩ :=
        (handle_effect (Invocation.accepted_iff.mp accepted)).moves kept stored
      exact ⟨record', found, moved.advances program control⟩
  · intro call n named isSome
    obtain ⟨⟨staged, out⟩, accepted⟩ := Option.isSome_iff_exists.mp isSome
    unfold after
    rw [runCalls_append, runCalls_cons, Invocation.settle, accepted]
    exact (handle_effect (Invocation.accepted_iff.mp accepted)).mutates named

/-- **Lookups agree**: in every state a run reaches, a key is looked up to exactly the account whose own view
lists it. -/
theorem lookups_agree (I : Identity) (calls : List (Invocation IdentityMsg)) (key : Bytes) (shown : AccountView) :
    answer (after I calls) (.ofKey key) = .ok (.account (some shown)) ↔
      answer (after I calls) (.get shown.number) = .ok (.account (some shown)) ∧
        key ∈ shown.keys.map (·.pubkey) := by
  have indexed := (consistent_run I calls).indexed key
  generalize after I calls = s at *
  have lists (control : ControlRecord) :
      key ∈ control.keysView.map (·.pubkey) ↔ ∃ keys, control.keys? = some keys ∧ key ∈ keys := by
    cases control <;> simp [ControlRecord.keysView, ControlRecord.keys?, ← Option.isSome_iff_exists]
  have get : answer s (.get shown.number) = .ok (.account (some shown)) ↔
      ∃ record, account s shown.number = some record ∧ accountView shown.number record = shown := by
    change (Except.ok _ : Except Error _) = _ ↔ _
    simp
  rw [get]
  constructor
  · intro looked
    cases owner : ownerOfKey s key with
    | none =>
      rw [answer, owner] at looked
      cases looked
    | some n =>
      obtain ⟨keys, held, mem⟩ := (indexed n).mp owner
      obtain ⟨record, found, held⟩ := Option.bind_eq_some_iff.mp held
      simp only [answer, owner, storedAccount, found] at looked
      cases looked
      exact ⟨⟨record, found, rfl⟩, (lists _).mpr ⟨keys, held, mem⟩⟩
  · rintro ⟨⟨record, found, is⟩, mem⟩
    rw [← is] at mem
    obtain ⟨keys, held, mem⟩ := (lists _).mp mem
    have owner := (indexed _).mpr ⟨keys, by rwa [keysOf, found], mem⟩
    simp only [answer, owner, storedAccount, found]
    conv_rhs => rw [← is]
    rfl

end runs

end Ducktape.Identity
