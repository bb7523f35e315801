import Ducktape.Modules.IdentityInvariant

/-! # How keys enter and leave accounts

A key joins an existing account only by an `AddKey` that a member of that account consented to, and
leaves one only by a removal that it or a member no younger than it signed. What a consent signs
names the joining key and the key's admission counter, which only advances, so a run spends a
consent at most once whatever is removed and admitted again in between.

* `Effect.entered`, `Effect.left`: one accepted operation.
* `spentConsents`, `statements_nodup`: the consents of a whole run.
* `key_enrolment`: the three together. -/

namespace Ducktape.Identity

open Lib Function List Option ControlRecord Invocation

/-! ## One operation -/

/-- The key belongs to the account. -/
def Member (s : Store) (n : AccountNumber) (key : Bytes) : Prop :=
  ∃ keys, keysOf (account s) n = some keys ∧ key ∈ keys

/-- The consensus time at which the key was admitted into the account. -/
def enrolledAt (s : Store) (n : AccountNumber) (key : Bytes) : Option Nat :=
  (keysOf (account s) n).bind fun keys => keys[key]?.map KeyMeta.addedAt

section step

variable {I : Identity} {s s' : Store} {env : Env} {msg : IdentityMsg} {key : Bytes} {n : AccountNumber}

/-- A key belongs to one account at most. -/
theorem Consistent.member_unique (kept : Consistent s) {m : AccountNumber} (here : Member s n key)
    (there : Member s m key) : n = m := by
  have owner := (kept.indexed key n).mpr here
  rw [(kept.indexed key m).mpr there] at owner
  exact (some.inj owner).symm

/-- A key with its metadata in the association is a member. -/
theorem member_of_getElem {record : AccountRecord} {keys : Association} {info : KeyMeta}
    (stored : account s n = some record) (control : record.control = .keys keys)
    (found : keys[key]? = some info) : Member s n key ∧ enrolledAt s n key = some info.addedAt := by
  have held : keysOf (account s) n = some keys := by
    rw [keysOf_of_stored stored, control, keys?]
  refine ⟨⟨keys, held, ?_⟩, by simp [enrolledAt, held, found]⟩
  exact Std.ExtTreeMap.mem_iff_isSome_getElem?.mpr (by simp [found])

/-- What an accepted operation does to the associations: nothing, found an account, add one key to
one of them, or take one away. -/
inductive Rekeys (s s' : Store) (env : Env) : IdentityMsg → Prop
  | same {msg : IdentityMsg} (same : keysOf (account s') = keysOf (account s)) : Rekeys s s' env msg
  | founds {msg : IdentityMsg} {n : AccountNumber} {keys : Association}
      (fresh : account s n = none)
      (founded : keysOf (account s') = update (keysOf (account s)) n (some keys)) :
      Rekeys s s' env msg
  | admits {scheme : KeyScheme} {label cleaned : Option String} {authorizer : Authorizer}
      {key : Bytes} {keys : Association} (origin : env.origin = .external key)
      (held : keysOf (account s) authorizer.account = some keys)
      (admitted : keysOf (account s') = update (keysOf (account s)) authorizer.account
        (some (keys.insert key ⟨scheme, cleaned, env.consensusTime⟩))) :
      Rekeys s s' env (.addKey scheme label authorizer)
  | drops {key : Bytes} {n : AccountNumber} {keys : Association}
      (held : keysOf (account s) n = some keys)
      (dropped : keysOf (account s') = update (keysOf (account s)) n (some (keys.erase key))) :
      Rekeys s s' env (.removeKey key)

theorem Effect.rekeys (kept : Consistent s) (effect : Effect I s env msg s') :
    Rekeys s s' env msg := by
  -- a rewrite that keeps the association of a stored account changes nothing here
  have unchanged {n : AccountNumber} {old : AccountRecord} {control : ControlRecord}
      found (keys : control.keys? = old.control.keys?) :
      update (keysOf (account s)) n control.keys? = keysOf (account s) :=
    update_eq_self_iff.mpr (by rw [keysOf_of_stored found, keys])
  cases effect
  case create _ control =>
    apply Rekeys.founds kept.account_next
    simp only [ne_eq, reduceCtorEq, not_false_eq_true, implies_true, account_put, account_put_acct,
      keysOf_update, control]
    rfl
  case addKey origin _ _ _ _ _ found control _ _ _ _ =>
    apply Rekeys.admits origin (by rw [keysOf_of_stored found, control, keys?])
    simp only [ne_eq, reduceCtorEq, not_false_eq_true, implies_true, account_put, account_put_acct,
      keysOf_update]
    rfl
  case removeKey found control _ _ _ _ =>
    refine .drops (by rw [keysOf_of_stored found, control, keys?]) ?_
    simp [keys?]
  case setName found control | setProfile found control =>
    exact .same (by simpa using unchanged found (by rw [control]))
  case createProgram control =>
    exact .same (by simp [control, keys?, ← kept.keysOf_next])
  case setProgramStanding found control | transferControl found control _ _ _ _ _
      | revokeProgram found control =>
    refine .same ?_
    simp only [ne_eq, reduceCtorEq, not_false_eq_true, implies_true, account_put, account_put_acct,
      keysOf_update]
    exact unchanged found (by rw [control]; rfl)

/-- A key that enters an existing account does so by an `AddKey` it submitted itself, with the
unexpired consent of a member of exactly that account; the time is recorded with it. -/
theorem Effect.entered (kept : Consistent s) (effect : Effect I s env msg s')
    (exists_ : (account s n).isSome) (absent : ¬ Member s n key) (entered : Member s' n key) :
    ∃ scheme label authorizer keys info, msg = .addKey scheme label authorizer ∧
      env.origin = .external key ∧ authorizer.account = n ∧
      keysOf (account s) n = some keys ∧ keys[authorizer.key]? = some info ∧
      (∀ m, Member s m authorizer.key ↔ m = n) ∧ env.consensusTime ≤ authorizer.expiresAt ∧
      info.scheme.verify I.signatures authorizer.key addKeyNs
        (I.addKeyPreimage scheme key (keyGen s key) n authorizer.expiresAt) authorizer.proof ∧
      enrolledAt s' n key = some env.consensusTime := by
  unfold Member at entered absent
  cases effect.rekeys kept with
  | same same => exact absurd (same ▸ entered) absent
  | founds fresh founded =>
    have other : n ≠ _ := fun same => by rw [same, fresh] at exists_; cases exists_
    rw [founded, update_of_ne other] at entered
    exact absurd entered absent
  | drops held dropped =>
    obtain ⟨keys', held', mem⟩ := entered
    rw [dropped] at held'
    rename_i k _
    by_cases same : n = k
    · subst same
      rw [update_self, some_inj] at held'
      subst held'
      exact absurd ⟨_, held, (mem_erase_iff.mp mem).2⟩ absent
    · rw [update_of_ne same] at held'
      exact absurd ⟨keys', held', mem⟩ absent
  | @admits scheme label cleaned authorizer joined keys origin held admitted =>
    obtain ⟨keys', held', mem⟩ := entered
    rw [admitted] at held'
    by_cases same : n = authorizer.account
    · subst same
      rw [update_self, some_inj] at held'
      subst held'
      have self : key = joined :=
        (mem_insert_iff.mp mem).resolve_right fun mem => absent ⟨keys, held, mem⟩
      subst self
      cases effect with
      | addKey origin' _ _ _ unexpired _ stored control _ member consent =>
        rw [origin] at origin'
        cases origin'
        obtain ⟨belongs, -⟩ := member_of_getElem stored control member
        refine ⟨scheme, label, authorizer, _, _, rfl, origin, rfl,
          by rw [keysOf_of_stored stored, control, keys?], member,
          fun m => ⟨fun there => kept.member_unique there belongs, fun same => same ▸ belongs⟩,
          unexpired, consent, ?_⟩
        rw [enrolledAt, admitted]
        simp
    · rw [update_of_ne same] at held'
      exact absurd ⟨keys', held', mem⟩ absent

/-- A key that leaves an account was removed by itself or by a member enrolled no later. -/
theorem Effect.left (kept : Consistent s) (effect : Effect I s env msg s') (held : Member s n key)
    (left : ¬ Member s' n key) :
    ∃ signer, msg = .removeKey key ∧ env.origin = .external signer ∧ Member s n signer ∧
      (signer = key ∨ ∃ senior junior, enrolledAt s n signer = some senior ∧
        enrolledAt s n key = some junior ∧ senior ≤ junior) := by
  have was := held
  obtain ⟨keys, held, mem⟩ := held
  cases effect.rekeys kept with
  | same same => exact absurd ⟨keys, same ▸ held, mem⟩ left
  | founds fresh founded =>
    have other : n ≠ _ := fun same => by
      rw [keysOf, same, fresh] at held
      cases held
    exact absurd ⟨keys, by rw [founded, update_of_ne other, held], mem⟩ left
  | @admits scheme label cleaned authorizer joined keys' origin held' admitted =>
    by_cases same : n = authorizer.account
    · subst same
      rw [held, some_inj] at held'
      subst held'
      exact absurd ⟨_, by rw [admitted, update_self], mem_insert_iff.mpr (.inr mem)⟩ left
    · exact absurd ⟨keys, by rw [admitted, update_of_ne same, held], mem⟩ left
  | @drops dropped k keys' held' gone =>
    by_cases same : n = k
    · subst same
      rw [held, some_inj] at held'
      subst held'
      have self : key = dropped := by
        by_contra other
        exact left ⟨_, by rw [gone, update_self], mem_erase_iff.mpr ⟨other, mem⟩⟩
      subst self
      cases effect with
      | removeKey origin owner stored control targeted _ membered senior =>
        have signs := member_of_getElem stored control membered
        have target := member_of_getElem stored control targeted
        obtain rfl := kept.member_unique was target.1
        refine ⟨_, rfl, origin, signs.1, ?_⟩
        rcases senior with self | senior
        · exact .inl self.symm
        · exact .inr ⟨_, _, signs.2, target.2, senior⟩
    · exact absurd ⟨keys, by rw [gone, update_of_ne same, held], mem⟩ left

end step

/-! ## Consents over a run -/

/-- A consent: the member key that gave it and the statement it signed. -/
structure Consent where
  signer : Bytes
  statement : Bytes
  deriving DecidableEq

/-- The consent an `AddKey` presents: the statement is fixed by the state it arrives in. -/
def presented (I : Identity) (s : Store) (call : Invocation IdentityMsg) : Option Consent :=
  match call.msg, call.env.origin with
  | .addKey scheme _ authorizer, .external key => some ⟨authorizer.key,
      I.addKeyPreimage scheme key (keyGen s key) authorizer.account authorizer.expiresAt⟩
  | _, _ => none

/-- The consents the accepted calls of a run spend, in order. -/
def spentConsents (I : Identity) (staged : StagedStore Key Value) :
    List (Invocation IdentityMsg) → List Consent
  | [] => []
  | call :: calls =>
    (if (call.accepted I.handle staged).isSome then (presented I staged.get call).toList else []) ++
      spentConsents I (call.settle I.handle staged) calls

section consents

variable {I : Identity} {s s' : Store} {env : Env} {msg : IdentityMsg} {staged : StagedStore Key Value}

/-- The statement names the joining key and its counter. -/
theorem addKeyPreimage_inj {scheme scheme' : KeyScheme} {key key' : Bytes}
    {generation generation' account account' expiry expiry' : Nat}
    (short : key.length < 2 ^ 64) (short' : key'.length < 2 ^ 64)
    (small : generation < 2 ^ 64) (small' : generation' < 2 ^ 64)
    (same : I.addKeyPreimage scheme key generation account expiry
      = I.addKeyPreimage scheme' key' generation' account' expiry') :
    key = key' ∧ generation = generation' := by
  simp only [addKeyPreimage, pushBytes, append_assoc, append_cancel_left_eq,
    cons_append, cons.injEq] at same
  obtain ⟨lengths, rest⟩ := append_inj same.2 (by simp)
  obtain ⟨keys, rest⟩ := append_inj rest (u64le_inj short short' lengths)
  obtain ⟨generations, -⟩ := append_inj rest (by simp)
  exact ⟨keys, u64le_inj small small' generations⟩

/-- Admission counters never go back. -/
theorem Effect.keyGen_le (effect : Effect I s env msg s') (key : Bytes) :
    keyGen s key ≤ keyGen s' key := by
  cases effect <;> simp
  case addKey joined _ _ _ _ _ _ _ _ _ _ _ _ _ _ _ =>
    by_cases same : key = joined
    · subst same
      simp
    · simp [update_of_ne same]

theorem keyGen_le_settle (staged : StagedStore Key Value) (call : Invocation IdentityMsg)
    (key : Bytes) : keyGen staged.get key ≤ keyGen (call.settle I.handle staged).get key := by
  rcases settle_cases I.handle staged call with same | ⟨out, accepted⟩
  · rw [same]
  · exact (handle_effect (accepted_iff.mp accepted)).keyGen_le key

/-- An accepted call's consent names a key at its current counter, which the call then advances. -/
theorem presented_of_accepted {staged' : StagedStore Key Value} {call : Invocation IdentityMsg}
    {out : Outputs} {consent : Consent} (accepted : call.accepted I.handle staged = some (staged', out))
    (given : presented I staged.get call = some consent) :
    ∃ scheme key account expiry, key.length < 2 ^ 64 ∧ keyGen staged.get key < u64Max ∧
      keyGen staged'.get key = keyGen staged.get key + 1 ∧
      consent.statement = I.addKeyPreimage scheme key (keyGen staged.get key) account expiry := by
  have effect : Effect I staged.get call.env call.msg staged'.get :=
    handle_effect (accepted_iff.mp accepted)
  generalize staged'.get = s' at effect
  unfold presented at given
  split at given
  · rename_i scheme label authorizer key isAdd origin
    cases given
    rw [isAdd] at effect
    cases effect with
    | addKey origin' wellformed _ _ _ _ _ _ _ _ _ unspent =>
      rw [origin] at origin'
      cases origin'
      have short : key.length < 2 ^ 64 := by
        cases scheme <;> simp [KeyScheme.pubkeyWellformed] at wellformed <;> omega
      exact ⟨scheme, key, _, _, short, unspent, by simp, rfl⟩
  · cases given

/-- A consent spent from here on names a key at a counter it has not passed yet. -/
theorem statement_of_spent {calls : List (Invocation IdentityMsg)} {consent : Consent}
    (spent : consent ∈ spentConsents I staged calls) :
    ∃ scheme key generation account expiry, key.length < 2 ^ 64 ∧
      keyGen staged.get key ≤ generation ∧ generation < u64Max ∧
      consent.statement = I.addKeyPreimage scheme key generation account expiry := by
  induction calls generalizing staged with
  | nil => cases spent
  | cons call calls ih =>
    rw [spentConsents, mem_append] at spent
    rcases spent with now | later
    · split at now
      · rename_i accepted
        obtain ⟨⟨staged', out⟩, accepted⟩ := isSome_iff_exists.mp accepted
        obtain ⟨scheme, key, account, expiry, short, unspent, -, statement⟩ :=
          presented_of_accepted accepted (by simpa using now)
        exact ⟨scheme, key, _, account, expiry, short, le_rfl, unspent, statement⟩
      · cases now
    · obtain ⟨scheme, key, generation, account, expiry, short, reached, bound, statement⟩ := ih later
      exact ⟨scheme, key, generation, account, expiry, short,
        (keyGen_le_settle staged call key).trans reached, bound, statement⟩

/-- No two accepted calls of a run spend the same statement. -/
theorem statements_nodup (staged : StagedStore Key Value) (calls : List (Invocation IdentityMsg)) :
    ((spentConsents I staged calls).map Consent.statement).Nodup := by
  induction calls generalizing staged with
  | nil => exact nodup_nil
  | cons call calls ih =>
    rw [spentConsents]
    split
    · rename_i accepted
      obtain ⟨⟨staged', out⟩, accepted⟩ := isSome_iff_exists.mp accepted
      cases given : presented I staged.get call with
      | none => exact ih _
      | some consent =>
        refine nodup_cons.mpr ⟨fun again => ?_, ih _⟩
        -- a later use would name the same key at a counter this call has passed
        obtain ⟨later, spent, same⟩ := mem_map.mp again
        obtain ⟨scheme, key, account, expiry, short, unspent, advanced, statement⟩ :=
          presented_of_accepted accepted given
        obtain ⟨_, key', generation, _, _, short', reached, bound, statement'⟩ :=
          statement_of_spent spent
        rw [statement', statement] at same
        have wide : u64Max < 2 ^ 64 := by decide
        obtain ⟨rfl, rfl⟩ :=
          addKeyPreimage_inj short' short (bound.trans wide) (unspent.trans wide) same
        rw [Invocation.settle, accepted] at reached
        change keyGen staged'.get key' ≤ _ at reached
        omega
    · exact ih _

end consents

/-- Over every run of identity operations: a key enters an existing account only by an `AddKey` with
the unexpired consent of a member of exactly that account; it leaves one only by a removal signed by
itself or by a member enrolled no later; and no consent is spent twice. -/
theorem key_enrolment (I : Identity) (calls : List (Invocation IdentityMsg)) :
    (∀ call n key, (account (after I calls) n).isSome → ¬ Member (after I calls) n key →
      Member (after I (calls ++ [call])) n key →
      ∃ scheme label authorizer keys info, call.msg = .addKey scheme label authorizer ∧
        call.env.origin = .external key ∧ authorizer.account = n ∧
        keysOf (account (after I calls)) n = some keys ∧ keys[authorizer.key]? = some info ∧
        (∀ m, Member (after I calls) m authorizer.key ↔ m = n) ∧
        call.env.consensusTime ≤ authorizer.expiresAt ∧
        info.scheme.verify I.signatures authorizer.key addKeyNs
          (I.addKeyPreimage scheme key (keyGen (after I calls) key) n authorizer.expiresAt)
          authorizer.proof ∧
        enrolledAt (after I (calls ++ [call])) n key = some call.env.consensusTime) ∧
      (∀ call n key, Member (after I calls) n key → ¬ Member (after I (calls ++ [call])) n key →
        ∃ signer, call.msg = .removeKey key ∧ call.env.origin = .external signer ∧
          Member (after I calls) n signer ∧
          (signer = key ∨ ∃ senior junior, enrolledAt (after I calls) n signer = some senior ∧
            enrolledAt (after I calls) n key = some junior ∧ senior ≤ junior)) ∧
      ((spentConsents I genesis calls).map Consent.statement).Nodup := by
  have kept := consistent_run I calls
  -- a call either changes nothing or has an effect
  have step : ∀ call, after I (calls ++ [call]) = after I calls ∨
      Effect I (after I calls) call.env call.msg (after I (calls ++ [call])) := by
    intro call
    unfold after
    rw [runCalls_append, runCalls_cons, runCalls_nil]
    rcases Invocation.settle_cases I.handle (runCalls I.handle genesis calls) call with
      same | ⟨out, accepted⟩
    · exact .inl (by rw [same])
    · exact .inr (handle_effect (Invocation.accepted_iff.mp accepted))
  refine ⟨fun call n key found absent entered => ?_, fun call n key held left => ?_,
    statements_nodup genesis calls⟩
  · rcases step call with same | effect
    · exact absurd (same ▸ entered) absent
    · exact effect.entered kept found absent entered
  · rcases step call with same | effect
    · exact absurd (same.symm ▸ held) left
    · exact effect.left kept held left

end Ducktape.Identity
