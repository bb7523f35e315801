import Ducktape.Host.Block

/-! # What a host shows between blocks

The reads a driver makes of a host's committed state: the internal work the next block runs
(`prepareWork`), the code registry's projection, the module roots a seal records, and the modules
that keep their own disk. -/

namespace Ducktape

section Committed

variable {C O : Type} (H : Host C O) (host : HostState C)

/-- `Host::query`: a read of committed state, System origin. -/
def queryCommitted (target : ModuleId) (request : Bytes) : Except Error Bytes :=
  H.registry.queryAs (H.registry.boundary host.committed) host.clock .system target request

/-- `module_status`: the code registry's projection, `none` without the registry. -/
def moduleStatus : Except Error (Option (List ModuleCode)) :=
  if modulesId ∉ H.registry.ids then .ok none
  else
    match queryCommitted H host modulesId H.wire.moduleStatus with
    | .error (.unknownModule _) => .ok none
    | .error e => .error e
    | .ok bytes =>
      match H.wire.modulesReply.decode bytes with
      | .error e => .error (.module s!"modules registry reply is unreadable: {e}")
      | .ok (.moduleStatus modules) => .ok (some modules)
      | .ok other =>
        let shape := H.wire.modulesReply.debug other
        .error (.module s!"modules registry answered ModuleStatus with {shape}")

/-- `pending_modules_advance`: the tick injected while a swap is armed at `height`. -/
def pendingModulesAdvance (height : Nat) : Except Error (Option Msg) := do
  match ← moduleStatus H host with
  | none => return none
  | some modules =>
    if modules.any fun m => m.pending.any (·.armedAt height) then
      return some ⟨modulesId, H.wire.modulesAdvance⟩
    else return none

/-- `pending_calls`: the head batch of the committed call queue, empty without dispatch. -/
def pendingCalls : Except Error (List PendingCall) :=
  match queryCommitted H host dispatchModuleId (H.wire.dispatchQuery.encode .pendingCalls) with
  | .error (.unknownModule _) => .ok []
  | .error e => .error (.module s!"dispatch: pending calls: {e.display}")
  | .ok bytes =>
    match H.wire.dispatchReply.decode bytes with
    | .error e => .error (.module s!"dispatch: pending calls: {e}")
    | .ok (.pendingCalls calls) => .ok calls
    | .ok other =>
      let shape := H.wire.dispatchReply.debug other
      .error (.module s!"dispatch: pending calls answered {shape}")

/-- A call of the committed queue as the block runs it. -/
def PendingCall.prepared (call : PendingCall) : PreparedCall :=
  ⟨call.enqueued, call.id, call.account, call.generation, call.target, call.payload, call.cause⟩

/-- An item of `source`'s committed queue as the block delivers it. -/
def PendingItem.prepared (source : ModuleId) (item : PendingItem) : PreparedDelivery :=
  ⟨⟨source, item.item⟩, item.target, item.payload, item.cause⟩

/-- One source's queue head, held to the per-block bound. -/
def pendingDeliveries (source : ModuleId) : Except Error (List PreparedDelivery) :=
  match (H.registry.code source).pendingItems (host.committed source) with
  | .error e => .error (.module s!"{source}: pending items: {e.display}")
  | .ok items => .ok ((items.take maxDeliveriesPerBlock).map (·.prepared source))

/-- `prepare_work`: the block's internal work, from committed state alone. -/
def prepareWork (height : Nat) : Except Error PreparedWork := do
  let calls ← pendingCalls H host
  let deliveries ← H.registry.ids.mapM (pendingDeliveries H host)
  let advance ← pendingModulesAdvance H host height
  .ok ⟨advance, calls.map (·.prepared), deliveries.flatten⟩

/-- A registered module's committed root. -/
def moduleRoot (id : ModuleId) : Option StateRoot :=
  if id ∈ H.registry.ids then some ((H.registry.code id).root (host.committed id)) else none

/-- Every registered module's root, in registry order. -/
def moduleRoots : List (ModuleId × StateRoot) :=
  H.registry.ids.map fun id => (id, (H.registry.code id).root (host.committed id))

/-- The modules that commit to their own disk each block. -/
def blockDurableIds : List ModuleId := H.registry.ids.filter fun id => (H.registry.code id).blockDurable

/-- A registered module's per-commit height cursor. -/
def durableCommitHeight (id : ModuleId) : Option Nat :=
  if id ∈ H.registry.ids then (H.registry.code id).durableCommitHeight (host.committed id) else none

end Committed

end Ducktape
