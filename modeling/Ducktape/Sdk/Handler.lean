import Ducktape.Lib.StagedStore
import Ducktape.Host.Module

/-! # Store-backed module code

The system modules are logic over a staged store: a handler reads the staged-over-committed view,
stages writes, hands the host follow-ups and stamps, asks siblings, and may refuse at any point.
`Handler K V α` is such a computation, `Handler.Ends ask h s a s'` says that with siblings answering
`ask` it ends with `a`, leaving `s'`. The `ends_*` lemmas take a run apart one operation at a time;
`Handler.Reads` marks code that writes nothing. `storeModule` is the `Module` of a handler.

`Invocation` is one call of a module from outside, `settle` what it leaves: a refused call leaves
nothing staged, since the host drops the unit it ran in. -/

namespace Ducktape

open Lib Except

/-- What a running handler holds: the staged store and what it has handed the host. -/
structure Scratch (K : Type) (V : K → Type) where
  staged : StagedStore K V
  out : Outputs

/-- Module code over a staged store. -/
def Handler (K : Type) (V : K → Type) (α : Type) : Type :=
  Scratch K V → Guest (Except Error α × Scratch K V)

namespace Handler

variable {K : Type} {V : K → Type} {α β : Type}

instance : Monad (Handler K V) where
  pure a := fun s => .done (.ok a, s)
  bind h f := fun s => h s >>= fun
    | (.ok a, s') => f a s'
    | (.error e, s') => .done (.error e, s')

/-- Refuse. -/
def fail (e : Error) : Handler K V α := fun s => .done (.error e, s)

/-- Refuse with `text` where `c` holds. -/
def refuseIf (c : Prop) [Decidable c] (text : String) : Handler K V Unit :=
  if c then fail (.module text) else pure ()

/-- The value, or a refusal with `text`. -/
def require (value : Option α) (text : String) : Handler K V α :=
  match value with
  | some a => pure a
  | none => fail (.module text)

/-- A pure decision. -/
def ofExcept (result : Except Error α) : Handler K V α := fun s => .done (result, s)

/-- The staged-over-committed view. -/
def view : Handler K V (Records K V) := fun s => .done (.ok s.staged.get, s)

/-- The committed store alone. -/
def committed : Handler K V (Records K V) := fun s => .done (.ok s.staged.store, s)

/-- `StagedStore::commit`: publish what is staged. -/
def publish : Handler K V Unit := fun s => .done (.ok (), { s with staged := s.staged.commit })

/-- `StagedStore::abort`: drop what is staged. -/
def discard : Handler K V Unit := fun s => .done (.ok (), { s with staged := s.staged.abort })

/-- Stage a record. -/
def stage [DecidableEq K] (k : K) (v : V k) : Handler K V Unit :=
  fun s => .done (.ok (), { s with staged := s.staged.stage k v })

/-- Stage a deletion. -/
def delete [DecidableEq K] (k : K) : Handler K V Unit :=
  fun s => .done (.ok (), { s with staged := s.staged.delete k })

/-- `ctx.emit_msg`. -/
def emitMsg (msg : Msg) : Handler K V Unit :=
  fun s => .done (.ok (), { s with out := { s.out with emitted := s.out.emitted ++ [msg] } })

/-- `ctx.set_assigned`. -/
def setAssigned (bytes : Bytes) : Handler K V Unit :=
  fun s => .done (.ok (), { s with out := { s.out with stamps := s.out.stamps ++ [bytes] } })

/-- `ctx.query`: read a sibling; a failed read refuses. -/
def query (target : ModuleId) (request : Bytes) : Handler K V Bytes :=
  fun s => Prog.ask (.query target request) fun reply => .done (reply, s)

/-- `ctx.query`, for code that goes on when the read fails. -/
def tryQuery (target : ModuleId) (request : Bytes) : Handler K V (Except Error Bytes) :=
  fun s => Prog.ask (.query target request) fun reply => .done (.ok reply, s)

/-- `ctx.module_root`. -/
def moduleRoot (target : ModuleId) : Handler K V (Option StateRoot) :=
  fun s => Prog.ask (.root target) fun root => .done (.ok root, s)

/-- `ctx.emit_event`. -/
def emitEvent (event : Event) : Handler K V Unit :=
  fun s => .done (.ok (), { s with out := { s.out with events := s.out.events ++ [event] } })

/-! ## Runs -/

/-- With siblings answering `ask`, the handler ends with `a` and leaves `s'`. -/
def Ends (ask : (q : Ask) → Answer q) (h : Handler K V α) (s : Scratch K V) (a : α)
    (s' : Scratch K V) : Prop :=
  (h s).eval ask = (.ok a, s')

variable {ask : (q : Ask) → Answer q} {s s' : Scratch K V} {a b : α} {h : Handler K V α} {u : Unit}
  {target : ModuleId}

@[simp] theorem ends_pure : Ends ask (pure a : Handler K V α) s b s' ↔ a = b ∧ s = s' := by
  show ((ok a, s) = (ok b, s')) ↔ _
  simp

variable {f : α → Handler K V β}

@[simp] theorem ends_bind {b : β} :
    Ends ask (h >>= f) s b s' ↔ ∃ a m, Ends ask h s a m ∧ Ends ask (f a) m b s' := by
  have unfolded : Ends ask (h >>= f) s b s' ↔
      (match (h s).eval ask with
        | (.ok a, m) => (f a m).eval ask
        | (.error e, m) => (.error e, m)) = (.ok b, s') := by
    show ((h s >>= _).eval ask = _) ↔ _
    rw [Prog.eval_bind]
    rcases (h s).eval ask with ⟨_ | _, _⟩ <;> rfl
  rw [unfolded]
  unfold Ends
  rcases (h s).eval ask with ⟨e | a, m⟩
  · simp
  constructor
  · exact fun ends => ⟨a, m, rfl, ends⟩
  · rintro ⟨_, _, same, ends⟩
    cases same
    exact ends

@[simp] theorem ends_fail {e : Error} : ¬ Ends ask (fail e : Handler K V α) s a s' := by
  show ¬ ((error e, s) = (ok a, s'))
  simp

@[simp] theorem ends_refuseIf {c : Prop} [Decidable c] {text : String} :
    Ends ask (refuseIf c text : Handler K V Unit) s u s' ↔ ¬ c ∧ s = s' := by
  unfold refuseIf
  split <;> simp [*]

@[simp] theorem ends_require {value : Option α} {text : String} :
    Ends ask (require value text : Handler K V α) s a s' ↔ value = some a ∧ s = s' := by
  cases value <;> simp [require]

@[simp] theorem ends_ofExcept {result : Except Error α} :
    Ends ask (ofExcept result : Handler K V α) s a s' ↔ result = .ok a ∧ s = s' := by
  show ((result, s) = (ok a, s')) ↔ _
  simp

variable {records : Records K V}

@[simp] theorem ends_view :
    Ends ask view s records s' ↔ s.staged.get = records ∧ s = s' := by
  show ((ok s.staged.get, s) = (ok records, s')) ↔ _
  simp

@[simp] theorem ends_committed :
    Ends ask committed s records s' ↔ s.staged.store = records ∧ s = s' := by
  show ((ok s.staged.store, s) = (ok records, s')) ↔ _
  simp

@[simp] theorem ends_publish :
    Ends ask (publish : Handler K V Unit) s u s' ↔ { s with staged := s.staged.commit } = s' := by
  show ((ok (), _) = (ok u, s')) ↔ _
  simp

@[simp] theorem ends_discard :
    Ends ask (discard : Handler K V Unit) s u s' ↔ { s with staged := s.staged.abort } = s' := by
  show ((ok (), _) = (ok u, s')) ↔ _
  simp

@[simp] theorem ends_stage [DecidableEq K] {k : K} {v : V k} :
    Ends ask (stage k v) s u s' ↔ { s with staged := s.staged.stage k v } = s' := by
  show ((ok (), _) = (ok u, s')) ↔ _
  simp

@[simp] theorem ends_delete [DecidableEq K] {k : K} : Ends ask (delete k : Handler K V Unit) s u s' ↔
      { s with staged := s.staged.delete k } = s' := by
  show ((ok (), _) = (ok u, s')) ↔ _
  simp

@[simp] theorem ends_emitMsg {msg : Msg} : Ends ask (emitMsg msg : Handler K V Unit) s u s' ↔
      { s with out := { s.out with emitted := s.out.emitted ++ [msg] } } = s' := by
  show ((ok (), _) = (ok u, s')) ↔ _
  simp

@[simp] theorem ends_setAssigned {bytes : Bytes} :
    Ends ask (setAssigned bytes : Handler K V Unit) s u s' ↔
      { s with out := { s.out with stamps := s.out.stamps ++ [bytes] } } = s' := by
  show ((ok (), _) = (ok u, s')) ↔ _
  simp

@[simp] theorem ends_query {request reply : Bytes} :
    Ends ask (query target request : Handler K V Bytes) s reply s' ↔
      ask (.query target request) = .ok reply ∧ s = s' := by
  show ((ask (.query target request), s) = (ok reply, s')) ↔ _
  simp

@[simp] theorem ends_tryQuery {request : Bytes} {reply : Except Error Bytes} :
    Ends ask (tryQuery target request : Handler K V (Except Error Bytes)) s reply s' ↔
      ask (.query target request) = reply ∧ s = s' := by
  show ((ok (ask (.query target request)), s) = (ok reply, s')) ↔ _
  simp

@[simp] theorem ends_moduleRoot {root : Option StateRoot} :
    Ends ask (moduleRoot target : Handler K V (Option StateRoot)) s root s' ↔
      ask (.root target) = root ∧ s = s' := by
  show ((ok (ask (.root target)), s) = (ok root, s')) ↔ _
  simp

@[simp] theorem ends_emitEvent {event : Event} : Ends ask (emitEvent event : Handler K V Unit) s u s' ↔
      { s with out := { s.out with events := s.out.events ++ [event] } } = s' := by
  show ((ok (), _) = (ok u, s')) ↔ _
  simp

/-! ## Code that only reads -/

/-- The handler leaves the store and the outputs as they were. -/
def Reads (h : Handler K V α) : Prop := ∀ ask s a s', Ends ask h s a s' → s' = s

namespace Reads

@[simp] theorem pure (a : α) : Reads (Pure.pure a : Handler K V α) := by
  intro ask s b s' ends
  exact (ends_pure.mp ends).2.symm

@[simp] theorem fail (e : Error) : Reads (Handler.fail e : Handler K V α) :=
  fun _ _ _ _ ends => absurd ends ends_fail

@[simp] theorem refuseIf (c : Prop) [Decidable c] (text : String) :
    Reads (Handler.refuseIf c text : Handler K V Unit) :=
  fun _ _ _ _ ends => (ends_refuseIf.mp ends).2.symm

@[simp] theorem require (value : Option α) (text : String) :
    Reads (Handler.require value text : Handler K V α) :=
  fun _ _ _ _ ends => (ends_require.mp ends).2.symm

@[simp] theorem ofExcept (result : Except Error α) : Reads (Handler.ofExcept result : Handler K V α) :=
  fun _ _ _ _ ends => (ends_ofExcept.mp ends).2.symm

@[simp] theorem view : Reads (Handler.view : Handler K V (Records K V)) :=
  fun _ _ _ _ ends => (ends_view.mp ends).2.symm

@[simp] theorem committed : Reads (Handler.committed : Handler K V (Records K V)) :=
  fun _ _ _ _ ends => (ends_committed.mp ends).2.symm

@[simp] theorem query (target : ModuleId) (request : Bytes) :
    Reads (Handler.query target request : Handler K V Bytes) :=
  fun _ _ _ _ ends => (ends_query.mp ends).2.symm

@[simp] theorem tryQuery (target : ModuleId) (request : Bytes) :
    Reads (Handler.tryQuery target request : Handler K V (Except Error Bytes)) :=
  fun _ _ _ _ ends => (ends_tryQuery.mp ends).2.symm

@[simp] theorem moduleRoot (target : ModuleId) :
    Reads (Handler.moduleRoot target : Handler K V (Option StateRoot)) :=
  fun _ _ _ _ ends => (ends_moduleRoot.mp ends).2.symm

theorem bind {h : Handler K V α} (first : Reads h) (rest : ∀ a, Reads (f a)) : Reads (h >>= f) := by
  intro ask s b s' ends
  obtain ⟨a, m, ran, ends⟩ := ends_bind.mp ends
  rw [rest a ask m b s' ends, first ask s a m ran]

end Reads

/-! ## Code that stages nothing -/

/-- The handler leaves the store as it was; it may hand the host messages. -/
def Unstaged (h : Handler K V α) : Prop := ∀ ask s a s', Ends ask h s a s' → s'.staged = s.staged

@[simp] theorem Reads.unstaged (reads : Reads h) : Unstaged h :=
  fun ask s a s' ends => by rw [reads ask s a s' ends]

namespace Unstaged

@[simp] theorem emitMsg (msg : Msg) : Unstaged (Handler.emitMsg msg : Handler K V Unit) :=
  fun _ _ _ _ ends => by rw [← ends_emitMsg.mp ends]

@[simp] theorem emitEvent (event : Event) : Unstaged (Handler.emitEvent event : Handler K V Unit) :=
  fun _ _ _ _ ends => by rw [← ends_emitEvent.mp ends]

end Unstaged

/-! ## Code that only stages -/

/-- The handler leaves the committed store as it was. -/
def Stages (h : Handler K V α) : Prop := ∀ ask s a s', Ends ask h s a s' → s'.staged.store = s.staged.store

@[simp] theorem Unstaged.stages (unstaged : Unstaged h) : Stages h :=
  fun ask s a s' ends => by rw [unstaged ask s a s' ends]

@[simp] theorem Reads.stages (reads : Reads h) : Stages h := reads.unstaged.stages

namespace Stages

@[simp] theorem pure (a : α) : Stages (Pure.pure a : Handler K V α) := (Reads.pure a).stages

@[simp] theorem stage [DecidableEq K] (k : K) (v : V k) : Stages (Handler.stage k v) :=
  fun _ _ _ _ ends => by rw [← ends_stage.mp ends]; exact StagedStore.store_stage ..

@[simp] theorem delete [DecidableEq K] (k : K) : Stages (Handler.delete k : Handler K V Unit) :=
  fun _ _ _ _ ends => by rw [← ends_delete.mp ends]; exact StagedStore.store_delete ..

theorem bind {h : Handler K V α} (first : Stages h) (rest : ∀ a, Stages (f a)) :
    Stages (h >>= f) := by
  intro ask s b s' ends
  obtain ⟨a, m, ran, ends⟩ := ends_bind.mp ends
  rw [rest a ask m b s' ends, first ask s a m ran]

end Stages

end Handler

/-! ## The module of a handler -/

section storeModule

variable {K : Type} {V : K → Type}

end storeModule

/-! ## Calls from outside -/

/-- One call of a module: the answers its siblings give, its environment, its decoded message. -/
structure Invocation (M : Type) where
  ask : (q : Ask) → Answer q
  env : Env
  msg : M

section run

variable {K : Type} {V : K → Type} {M : Type} (handle : Env → M → Handler K V Unit)
  {staged : StagedStore K V}

/-- What the module stages and hands the host when it accepts the call. -/
def Invocation.accepted (call : Invocation M) (staged : StagedStore K V) :
    Option (StagedStore K V × Outputs) :=
  match (handle call.env call.msg ⟨staged, default⟩).eval call.ask with
  | (.ok (), s) => some (s.staged, s.out)
  | (.error _, _) => none

/-- The store after the call: a refused one leaves it as it was. -/
def Invocation.settle (staged : StagedStore K V) (call : Invocation M) : StagedStore K V :=
  ((call.accepted handle staged).map Prod.fst).getD staged

/-- The store after a sequence of calls. -/
def runCalls (staged : StagedStore K V) (calls : List (Invocation M)) : StagedStore K V :=
  calls.foldl (Invocation.settle handle) staged

/-- A call either changes nothing or was accepted. -/
theorem Invocation.settle_cases (staged : StagedStore K V) (call : Invocation M) :
    call.settle handle staged = staged ∨
      ∃ out, call.accepted handle staged = some (call.settle handle staged, out) := by
  unfold Invocation.settle
  rcases call.accepted handle staged with _ | ⟨staged', out⟩
  · exact .inl rfl
  · exact .inr ⟨out, rfl⟩

variable {handle}

theorem Invocation.accepted_iff {call : Invocation M} {staged' : StagedStore K V} {out : Outputs} :
    call.accepted handle staged = some (staged', out) ↔
      Handler.Ends call.ask (handle call.env call.msg) ⟨staged, default⟩ () ⟨staged', out⟩ := by
  unfold Invocation.accepted Handler.Ends
  rcases (handle call.env call.msg ⟨staged, default⟩).eval call.ask with ⟨_ | _, _, _⟩ <;> simp

@[simp] theorem runCalls_nil (staged : StagedStore K V) : runCalls handle staged [] = staged := rfl

@[simp] theorem runCalls_cons (staged : StagedStore K V) (call : Invocation M)
    (calls : List (Invocation M)) :
    runCalls handle staged (call :: calls) = runCalls handle (call.settle handle staged) calls := rfl

theorem runCalls_append (staged : StagedStore K V) (calls later : List (Invocation M)) :
    runCalls handle staged (calls ++ later) = runCalls handle (runCalls handle staged calls) later :=
  List.foldl_append

/-- What holds at the start and is kept by every accepted call of a run holds after it. -/
theorem runCalls_invariant {P : StagedStore K V → Prop} (calls : List (Invocation M))
    (step : ∀ call ∈ calls, ∀ staged staged' out, P staged →
      Invocation.accepted handle call staged = some (staged', out) → P staged') (start : P staged) :
    P (runCalls handle staged calls) := by
  induction calls generalizing staged with
  | nil => exact start
  | cons call calls ih =>
    refine ih (fun later mem => step later (List.mem_cons_of_mem _ mem)) ?_
    rcases Invocation.settle_cases handle staged call with same | ⟨out, accepted⟩
    · rw [same]
      exact start
    · exact step call List.mem_cons_self staged _ out start accepted

end run

end Ducktape
