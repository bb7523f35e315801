import Ducktape.Lib.Lockstep
import Ducktape.Modules.Identity

/-! # What an identity operation can do

`Effect I s env msg s'` lists, operation by operation, the state an accepted operation starts from
and the writes it makes; `handle_effect` says that every accepted call has one. The invariants of
the registry are read off this list and never unfold a handler. -/

namespace Ducktape.Identity

open Lib Handler StagedStore

/-! ## Who acts -/

/-- The origin acts as account `number`: a key the index gives to it, or the active program
itself. -/
inductive Acts (s : Store) (env : Env) (number : AccountNumber) : Prop
  | key {key : Bytes} (origin : env.origin = .external key) (owner : ownerOfKey s key = some number)
  | program {record : AccountRecord} {program : ProgramControl}
      (origin : env.origin = .program number) (stored : account s number = some record)
      (control : record.control = .program program) (active : program.standing = .active)

variable {record : AccountRecord}

theorem storedAccount_eq_ok {s : Store} {number : AccountNumber} :
    storedAccount s number = .ok record ↔ account s number = some record := by
  unfold storedAccount
  cases account s number <;> simp

theorem submitterKey_eq_ok {bytes key : Bytes} (ok : submitterKey bytes = .ok key) : bytes = key := by
  unfold submitterKey at ok
  split at ok
  · cases ok
  · exact Except.ok.inj ok

theorem originKey_eq_ok {env : Env} {key : Bytes} (ok : originKey env = .ok key) :
    env.origin = .external key := by
  unfold originKey at ok
  split at ok
  · rename_i origin
    rw [origin, submitterKey_eq_ok ok]
  all_goals cases ok

theorem actingModule_eq_ok {env : Env} {id : ModuleId} (ok : actingModule env = .ok id) :
    env.origin = .module id := by
  unfold actingModule at ok
  split at ok
  · rename_i origin
    rw [origin, Except.ok.inj ok]
  all_goals cases ok

theorem program?_eq_ok {control : ControlRecord} {program : ProgramControl}
    (ok : control.program? = .ok program) : control = .program program := by
  cases control <;> simp_all [ControlRecord.program?]

theorem association_eq_ok {keys : Association} (ok : record.association = .ok keys) :
    record.control = .keys keys := by
  unfold AccountRecord.association at ok
  split at ok <;> simp_all

/-- A resolved origin acts as its account, whose record it comes with. -/
theorem acting_eq_ok {s : Store} {env : Env} {actor : Actor} (ok : acting s env = .ok (actor, record)) :
    Acts s env actor.account ∧ account s actor.account = some record ∧
      ∀ key number, actor = .key key number → env.origin = .external key := by
  unfold acting at ok
  split at ok
  · rename_i origin
    obtain ⟨key, submitted, ok⟩ := bind_eq_ok.mp ok
    have same := submitterKey_eq_ok submitted
    subst same
    split at ok
    · cases ok
    rename_i owner
    obtain ⟨stored, found, ok⟩ := bind_eq_ok.mp ok
    cases ok
    exact ⟨.key origin owner, storedAccount_eq_ok.mp found, by rintro _ _ ⟨⟩; exact origin⟩
  · rename_i origin
    split at ok
    · cases ok
    rename_i found
    split at ok
    · rename_i control
      split at ok
      · rename_i active
        cases ok
        exact ⟨.program origin found control active, found, by rintro _ _ ⟨⟩⟩
      · cases ok
    all_goals cases ok
  all_goals cases ok

/-! ## Effects -/

/-- What an accepted operation starts from and writes. -/
inductive Effect (I : Identity) (s : Store) (env : Env) : IdentityMsg → Store → Prop
  /-- A key founds an account. -/
  | create {name : String} {scheme : KeyScheme} {key : Bytes} {record : AccountRecord}
      (origin : env.origin = .external key)
      (fresh : ownerOfKey s key = none)
      (control : record.control =
        .keys ((∅ : Association).insert key ⟨scheme, none, env.consensusTime⟩)) :
      Effect I s env (.create name scheme)
        (put (put (put s (.acct (nextNumber s)) record) (.keyOwner key) (nextNumber s))
          .nextNumber (nextNumber s + 1))
  /-- A key joins the account of a member that consents to it. -/
  | addKey {scheme : KeyScheme} {label cleaned : Option String} {authorizer : Authorizer}
      {key : Bytes} {record : AccountRecord} {keys : Association} {authorizing : KeyMeta}
      (origin : env.origin = .external key)
      (wellformed : scheme.pubkeyWellformed I.signatures key)
      (fresh : ownerOfKey s key = none)
      (owner : ownerOfKey s authorizer.key = some authorizer.account)
      (unexpired : env.consensusTime ≤ authorizer.expiresAt)
      (bounded : authorizer.expiresAt - env.consensusTime ≤ maxConsentTtl)
      (stored : account s authorizer.account = some record)
      (control : record.control = .keys keys)
      (room : keys.size < maxKeysPerAccount)
      (member : keys[authorizer.key]? = some authorizing)
      (consent : authorizing.scheme.verify I.signatures authorizer.key addKeyNs
        (I.addKeyPreimage scheme key (keyGen s key) authorizer.account authorizer.expiresAt)
        authorizer.proof)
      (unspent : keyGen s key < u64Max) :
      Effect I s env (.addKey scheme label authorizer)
        (put (put (put s (.acct authorizer.account)
            { record with
              control := .keys (keys.insert key ⟨scheme, cleaned, env.consensusTime⟩)
              updatedAt := env.consensusTime })
          (.keyOwner key) authorizer.account) (.keyGen key) (keyGen s key + 1))
  /-- A member drops itself or a key that is no senior of it. -/
  | removeKey {key signer : Bytes} {number : AccountNumber} {record : AccountRecord}
      {keys : Association} {target member : KeyMeta}
      (origin : env.origin = .external signer)
      (owner : ownerOfKey s signer = some number)
      (stored : account s number = some record)
      (control : record.control = .keys keys)
      (targeted : keys[key]? = some target)
      (shared : keys.size ≠ 1)
      (membered : keys[signer]? = some member)
      (senior : key = signer ∨ member.addedAt ≤ target.addedAt) :
      Effect I s env (.removeKey key)
        (drop (put s (.acct number)
            { record with control := .keys (keys.erase key), updatedAt := env.consensusTime })
          (.keyOwner key))
  /-- The acting account is renamed. -/
  | setName {name : String} {number : AccountNumber} {record record' : AccountRecord}
      (acts : Acts s env number)
      (stored : account s number = some record)
      (control : record'.control = record.control) :
      Effect I s env (.setName name) (put s (.acct number) record')
  /-- The acting account's profile is set. -/
  | setProfile {avatar bio : Option String} {number : AccountNumber}
      {record record' : AccountRecord}
      (acts : Acts s env number)
      (stored : account s number = some record)
      (control : record'.control = record.control) :
      Effect I s env (.setProfile avatar bio) (put s (.acct number) record')
  /-- A module founds a program account for a live controller. -/
  | createProgram {name : String} {controller : AccountNumber} {request : Nat}
      {executor : ModuleId} {record founder : AccountRecord}
      (origin : env.origin = .module executor)
      (stored : account s controller = some founder)
      (live : founder.control.isLive)
      (control : record.control = .program ⟨controller, executor, 0, .active⟩) :
      Effect I s env (.createProgram name controller request)
        (put (put (put s (.acct (nextNumber s)) record) (.controlled controller)
          ((controlledBy s controller).insert (nextNumber s))) .nextNumber (nextNumber s + 1))
  /-- Its executor sets a program's standing. -/
  | setProgramStanding {number : AccountNumber} {standing : ProgramStanding}
      {record : AccountRecord} {program : ProgramControl}
      (origin : env.origin = .module program.executor)
      (stored : account s number = some record)
      (control : record.control = .program program) :
      Effect I s env (.setProgramStanding number standing)
        (put s (.acct number) { record with
          control := .program
            { program with generation := program.generation + 1, standing := standing }
          updatedAt := env.consensusTime })
  /-- Its controller hands a program to a live account that it does not control. -/
  | transferControl {number receiver : AccountNumber} {record heir : AccountRecord}
      {program : ProgramControl} {chain : List AccountNumber}
      (acts : Acts s env program.controller)
      (stored : account s number = some record)
      (control : record.control = .program program)
      (moves : receiver ≠ program.controller)
      (found : account s receiver = some heir)
      (live : heir.control.isLive)
      (climbed : controllerChain s receiver = .ok chain)
      (acyclic : number ∉ chain) :
      Effect I s env (.transferControl number receiver)
        (put (put (put s (.acct number) { record with
            control := .program
              { program with generation := program.generation + 1, controller := receiver }
            updatedAt := env.consensusTime })
          (.controlled program.controller) ((controlledBy s program.controller).erase number))
          (.controlled receiver) ((controlledBy s receiver).insert number))
  /-- Its controller revokes a program. -/
  | revokeProgram {number : AccountNumber} {record : AccountRecord} {program : ProgramControl}
      (acts : Acts s env program.controller)
      (stored : account s number = some record)
      (control : record.control = .program program) :
      Effect I s env (.revokeProgram number)
        (put s (.acct number) { record with
          control := .revoked program.controller, updatedAt := env.consensusTime })

/-! ## Decisions, inverted -/

theorem checkedSucc_eq_some {n m : Nat} (ok : checkedSucc n = some m) : n < u64Max ∧ m = n + 1 := by
  unfold checkedSucc at ok
  split at ok
  · exact ⟨‹_›, (Option.some.inj ok).symm⟩
  · cases ok

theorem allocateNumber_eq_ok {next number after : AccountNumber}
    (ok : allocateNumber next = .ok (number, after)) :
    next ≤ maxAccounts ∧ number = next ∧ after = next + 1 := by
  unfold allocateNumber at ok
  split at ok
  · cases ok
  split at ok
  · rename_i below _ _ succ
    cases ok
    exact ⟨not_lt.mp below, rfl, (checkedSucc_eq_some succ).2⟩
  · cases ok

theorem nextGeneration_eq_ok {n m : Nat} (ok : nextGeneration n = .ok m) : m = n + 1 := by
  unfold nextGeneration at ok
  split at ok
  · rename_i succ
    cases ok
    exact (checkedSucc_eq_some succ).2
  · cases ok

theorem nextKeyGeneration_eq_ok {n m : Nat} (ok : nextKeyGeneration n = .ok m) :
    n < u64Max ∧ m = n + 1 := by
  unfold nextKeyGeneration at ok
  split at ok
  · rename_i succ
    cases ok
    exact checkedSucc_eq_some succ
  · cases ok

section decisions

variable {I : Identity} {record changed : AccountRecord} {now : Nat}

theorem encodeAccount_eq_ok {stored : AccountRecord} (ok : I.encodeAccount record = .ok stored) :
    stored = record := by
  unfold encodeAccount at ok
  dsimp only at ok
  split at ok
  · cases ok
  · exact (Except.ok.inj ok).symm

theorem encodeSet_eq_ok {set stored : ControlledSet} (ok : I.encodeSet set = .ok stored) :
    stored = set := by
  unfold encodeSet at ok
  dsimp only at ok
  split at ok
  · cases ok
  · exact (Except.ok.inj ok).symm

theorem decideTransfer_eq_ok {loaded : TransferLoaded} {actor number receiver : AccountNumber}
    {plan : WritePlan}
    (ok : I.decideTransfer loaded actor number receiver now = .ok plan) :
    ∃ program, loaded.record.control = .program program ∧ program.controller = actor ∧
      receiver ≠ program.controller ∧ loaded.receiverRecord.control.isLive ∧
      number ∉ loaded.receiverChain ∧ plan =
        [⟨.acct number, { loaded.record with
            control := .program
              { program with generation := program.generation + 1, controller := receiver }
            updatedAt := now }⟩,
          ⟨.controlled program.controller, loaded.giverSet.erase number⟩,
          ⟨.controlled receiver, loaded.receiverSet.insert number⟩] := by
  obtain ⟨program, isProgram, ok⟩ := bind_eq_ok.mp ok
  split at ok
  · cases ok
  split at ok
  · cases ok
  split at ok
  · cases ok
  split at ok
  · cases ok
  split at ok
  · cases ok
  rename_i byController _ moves live acyclic
  obtain ⟨generation, next, ok⟩ := bind_eq_ok.mp ok
  rw [nextGeneration_eq_ok next] at ok
  obtain ⟨record, record_ok, ok⟩ := bind_eq_ok.mp ok
  obtain ⟨giver, giver_ok, ok⟩ := bind_eq_ok.mp ok
  obtain ⟨heir, heir_ok, ok⟩ := bind_eq_ok.mp ok
  rw [encodeAccount_eq_ok record_ok, encodeSet_eq_ok giver_ok, encodeSet_eq_ok heir_ok] at ok
  exact ⟨program, program?_eq_ok isProgram, not_not.mp byController, moves, not_not.mp live,
    acyclic, (Except.ok.inj ok).symm⟩

end decisions

/-! ## Every accepted call has an effect -/

section handlers

variable {I : Identity} {ask : (q : Ask) → Answer q} {env : Env} {scratch after : Scratch Key Value}
  {number : AccountNumber} {name : String}

theorem ends_storeAccount {record : AccountRecord}
    (ends : Ends ask (I.storeAccount number record) scratch () after) :
    after = { scratch with staged := scratch.staged.stage (.acct number) record } := by
  simp only [storeAccount, ends_bind, ends_ofExcept, ends_stage] at ends
  obtain ⟨stored, _, ⟨ok, rfl⟩, rfl⟩ := ends
  rw [encodeAccount_eq_ok ok]

theorem create_effect {scheme : KeyScheme}
    (ends : Ends ask (I.create env name scheme) scratch () after) :
    Effect I scratch.staged.get env (.create name scheme) after.staged.get := by
  simp only [create, ends_bind, ends_ofExcept, ends_refuseIf,
    ends_stage, ends_setAssigned] at ends
  obtain ⟨key, _, ⟨origin, rfl⟩, _, _, ⟨-, rfl⟩, _, _, ⟨rfl, rfl⟩, _, _, ⟨fresh, rfl⟩, _, _,
    ⟨-, rfl⟩, ⟨number, next⟩, _, ⟨allocated, rfl⟩, _, _, stored, _, _, rfl, _, _, rfl, rfl⟩ := ends
  obtain ⟨-, rfl, rfl⟩ := allocateNumber_eq_ok allocated
  rw [ends_storeAccount stored]
  simp only [get_stage]
  exact .create (originKey_eq_ok origin) (by simpa using fresh) rfl

theorem addKey_effect {scheme : KeyScheme} {label : Option String} {authorizer : Authorizer}
    (ends : Ends ask (I.addKey env scheme label authorizer) scratch () after) :
    Effect I scratch.staged.get env (.addKey scheme label authorizer) after.staged.get := by
  simp only [addKey, ends_bind, ends_ofExcept, ends_refuseIf,
    ends_stage, ends_require] at ends
  obtain ⟨key, _, ⟨origin, rfl⟩, _, _, ⟨wellformed, rfl⟩, _, _, ⟨rfl, rfl⟩, _, _, ⟨fresh, rfl⟩, ends⟩ := ends
  obtain ⟨number, _, ⟨owner, rfl⟩, _, _, ⟨named, rfl⟩, _, _, ⟨unexpired, rfl⟩, _, _, ⟨bounded, rfl⟩, ends⟩ := ends
  obtain ⟨record, _, ⟨stored, rfl⟩, keys, _, ⟨held, rfl⟩, _, _, ⟨room, rfl⟩, ends⟩ := ends
  obtain ⟨authorizing, _, ⟨member, rfl⟩, _, _, ⟨consent, rfl⟩, cleaned, _, ⟨-, rfl⟩, ends⟩ := ends
  obtain ⟨spent, _, ⟨counted, rfl⟩, _, _, written, _, _, rfl, rfl⟩ := ends
  obtain rfl := not_not.mp named
  obtain ⟨unspent, rfl⟩ := nextKeyGeneration_eq_ok counted
  rw [ends_storeAccount written]
  simp only [get_stage]
  exact .addKey (originKey_eq_ok origin) (not_not.mp wellformed) (by simpa using fresh) owner
    (not_lt.mp unexpired) (not_lt.mp bounded) (storedAccount_eq_ok.mp stored)
    (association_eq_ok held) (not_le.mp room) member (not_not.mp consent) unspent

theorem removeKey_effect {key : Bytes}
    (ends : Ends ask (I.removeKey env key) scratch () after) :
    Effect I scratch.staged.get env (.removeKey key) after.staged.get := by
  simp only [removeKey, ends_bind, ends_ofExcept] at ends
  obtain ⟨_, _, ⟨rfl, rfl⟩, ⟨actor, record⟩, _, ⟨acts, rfl⟩, ends⟩ := ends
  obtain ⟨acting, stored, origin⟩ := acting_eq_ok acts
  cases actor with
  | program number => exact absurd ends ends_fail
  | key signer number =>
    simp only [ends_bind, ends_ofExcept, ends_require, ends_refuseIf, ends_delete] at ends
    obtain ⟨keys, _, ⟨held, rfl⟩, target, _, ⟨targeted, rfl⟩, _, _, ⟨shared, rfl⟩, member, _,
      ⟨membered, rfl⟩, _, _, ⟨senior, rfl⟩, _, _, written, rfl⟩ := ends
    have signed := origin signer number rfl
    have owner : ownerOfKey scratch.staged.get signer = some number := by
      cases acting with
      | key external owner =>
        rw [signed] at external
        cases external
        exact owner
      | program program => rw [signed] at program; cases program
    rw [ends_storeAccount written]
    simp only [get_stage, get_delete]
    refine .removeKey signed owner stored (association_eq_ok held) targeted shared membered ?_
    by_cases self : key = signer
    · exact .inl self
    · exact .inr (not_lt.mp fun younger => senior ⟨self, younger⟩)

theorem setName_effect (ends : Ends ask (I.setName env name) scratch () after) :
    Effect I scratch.staged.get env (.setName name) after.staged.get := by
  simp only [setName, ends_bind, ends_ofExcept] at ends
  obtain ⟨_, _, ⟨rfl, rfl⟩, ⟨actor, record⟩, _, ⟨acts, rfl⟩, _, _, ⟨-, rfl⟩, written⟩ := ends
  obtain ⟨acting, stored, -⟩ := acting_eq_ok acts
  rw [ends_storeAccount written]
  simp only [get_stage]
  exact .setName acting stored rfl

theorem setProfile_effect {avatar bio : Option String}
    (ends : Ends ask (I.setProfile env avatar bio) scratch () after) :
    Effect I scratch.staged.get env (.setProfile avatar bio) after.staged.get := by
  simp only [setProfile, ends_bind, ends_ofExcept] at ends
  obtain ⟨_, _, ⟨rfl, rfl⟩, ⟨actor, record⟩, _, ⟨acts, rfl⟩, _, _, ⟨-, rfl⟩, _, _, ⟨-, rfl⟩,
    written⟩ := ends
  obtain ⟨acting, stored, -⟩ := acting_eq_ok acts
  rw [ends_storeAccount written]
  simp only [get_stage]
  exact .setProfile acting stored rfl

theorem createProgram_effect {controller : AccountNumber} {request : Nat}
    (ends : Ends ask (I.createProgram env name controller request) scratch () after) :
    Effect I scratch.staged.get env (.createProgram name controller request) after.staged.get := by
  simp only [createProgram, ends_bind, ends_ofExcept, ends_require, ends_refuseIf, ends_emitMsg,
    ends_setAssigned] at ends
  obtain ⟨executor, _, ⟨origin, rfl⟩, _, _, ⟨-, rfl⟩, _, _, ⟨rfl, rfl⟩, founder, _, ⟨stored, rfl⟩,
    _, _, ⟨live, rfl⟩, ⟨plan, number⟩, _, ⟨decided, rfl⟩, _, _, staged, _, _, rfl, rfl⟩ := ends
  obtain ⟨⟨allocated, following⟩, allocates, decided⟩ := bind_eq_ok.mp decided
  obtain ⟨-, rfl, rfl⟩ := allocateNumber_eq_ok allocates
  obtain ⟨record, recorded, decided⟩ := bind_eq_ok.mp decided
  obtain ⟨set, controlled, decided⟩ := bind_eq_ok.mp decided
  rw [encodeAccount_eq_ok recorded, encodeSet_eq_ok controlled] at decided
  cases decided
  obtain ⟨_, _, rfl, _, _, rfl, _, _, rfl, -, rfl⟩ := staged
  simp only [get_stage]
  exact .createProgram (actingModule_eq_ok origin) stored (not_not.mp live) rfl

theorem setProgramStanding_effect {standing : ProgramStanding}
    (ends : Ends ask (I.setProgramStanding env number standing) scratch () after) :
    Effect I scratch.staged.get env (.setProgramStanding number standing) after.staged.get := by
  simp only [setProgramStanding, ends_bind, ends_ofExcept, ends_require] at ends
  obtain ⟨executor, _, ⟨origin, rfl⟩, _, _, ⟨rfl, rfl⟩, record, _, ⟨stored, rfl⟩, changed, _,
    ⟨decided, rfl⟩, written⟩ := ends
  obtain ⟨program, isProgram, decided⟩ := bind_eq_ok.mp decided
  split at decided
  · cases decided
  rename_i same
  obtain ⟨generation, next, decided⟩ := bind_eq_ok.mp decided
  rw [nextGeneration_eq_ok next] at decided
  cases decided
  obtain rfl : program.executor = executor := not_not.mp same
  rw [ends_storeAccount written]
  simp only [get_stage]
  exact .setProgramStanding (actingModule_eq_ok origin) stored (program?_eq_ok isProgram)

theorem transferControl_effect {receiver : AccountNumber}
    (ends : Ends ask (I.transferControl env number receiver) scratch () after) :
    Effect I scratch.staged.get env (.transferControl number receiver) after.staged.get := by
  simp only [transferControl, ends_bind, ends_ofExcept, ends_require] at ends
  obtain ⟨_, _, ⟨rfl, rfl⟩, ⟨actor, actorRecord⟩, _, ⟨acts, rfl⟩, record, _, ⟨stored, rfl⟩, program,
    _, ⟨isProgram, rfl⟩, heir, _, ⟨found, rfl⟩, chain, _, ⟨climbed, rfl⟩, plan, _, ⟨decided, rfl⟩,
    staged⟩ := ends
  obtain ⟨acting, -, -⟩ := acting_eq_ok acts
  obtain ⟨program', control, byController, moves, live, acyclic, rfl⟩ := decideTransfer_eq_ok decided
  rw [control] at isProgram
  cases isProgram
  obtain ⟨_, _, rfl, _, _, rfl, _, _, rfl, -, rfl⟩ := staged
  simp only [get_stage]
  rw [← byController] at acting
  exact .transferControl acting stored control moves found live climbed acyclic

theorem revokeProgram_effect (ends : Ends ask (I.revokeProgram env number) scratch () after) :
    Effect I scratch.staged.get env (.revokeProgram number) after.staged.get := by
  simp only [revokeProgram, ends_bind, ends_ofExcept, ends_require] at ends
  obtain ⟨_, _, ⟨rfl, rfl⟩, ⟨actor, actorRecord⟩, _, ⟨acts, rfl⟩, record, _, ⟨stored, rfl⟩, revoked,
    _, ⟨decided, rfl⟩, written⟩ := ends
  obtain ⟨acting, -, -⟩ := acting_eq_ok acts
  obtain ⟨program, isProgram, decided⟩ := bind_eq_ok.mp decided
  split at decided
  · cases decided
  rename_i same
  cases decided
  rw [ends_storeAccount written]
  simp only [get_stage]
  rw [← not_not.mp same] at acting
  exact .revokeProgram acting stored (program?_eq_ok isProgram)

/-- An accepted operation has one of the listed effects. -/
theorem handle_effect {msg : IdentityMsg}
    (ends : Ends ask (I.handle env msg) scratch () after) :
    Effect I scratch.staged.get env msg after.staged.get := by
  cases msg with
  | create => exact create_effect ends
  | addKey => exact addKey_effect ends
  | removeKey => exact removeKey_effect ends
  | setName => exact setName_effect ends
  | setProfile => exact setProfile_effect ends
  | createProgram => exact createProgram_effect ends
  | setProgramStanding => exact setProgramStanding_effect ends
  | transferControl => exact transferControl_effect ends
  | revokeProgram => exact revokeProgram_effect ends

end handlers

end Ducktape.Identity
