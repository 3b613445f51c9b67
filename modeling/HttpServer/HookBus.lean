import HttpServer.Lib.Run
import HttpServer.Lib.SlotTable
import HttpServer.RouteTable

/-!
Hook registration: the server-wide `hook_bus`, the per-resource
`resource_hook_table` and the `hook_handle`s that own registrations. A callable
is a name; what it does when it is fired is left to the dispatch model.
-/
namespace HttpServer
open Slots

inductive HookPhase where
  | connectionOpened | acceptDecision | requestReceived | bodyChunk | routeResolved
  | beforeHandler | handlerException | afterHandler | responseSent | requestCompleted
  | connectionClosed | count_
  deriving DecidableEq, Repr

def HookPhase.name : HookPhase → Str
  | .connectionOpened => "connection_opened".toList
  | .acceptDecision => "accept_decision".toList
  | .requestReceived => "request_received".toList
  | .bodyChunk => "body_chunk".toList
  | .routeResolved => "route_resolved".toList
  | .beforeHandler => "before_handler".toList
  | .handlerException => "handler_exception".toList
  | .afterHandler => "after_handler".toList
  | .responseSent => "response_sent".toList
  | .requestCompleted => "request_completed".toList
  | .connectionClosed => "connection_closed".toList
  | .count_ => []

/-- What a slot calls: a user's callable, or one of the hooks the server
    installs for the handlers it was configured with. -/
inductive HookFn where
  | authAlias
  | methodNotAllowedAlias
  | notFoundAlias
  | user (id : Nat)
  deriving DecidableEq, Repr

inductive HookError where
  | phaseMismatch (requested expected : HookPhase)
  | emptyCallable
  | wrongRoutePhase (requested expected : HookPhase)
  | emptyRouteCallable
  deriving DecidableEq, Repr

def HookError.message : HookError → Str
  | .phaseMismatch requested expected =>
    "hook phase mismatch: add_hook overload for ".toList ++ expected.name ++
      " received phase tag ".toList ++ requested.name
  | .emptyCallable => "hook callable must not be empty".toList
  | .wrongRoutePhase requested expected =>
    "http_resource::add_hook: invalid phase ".toList ++ requested.name ++
      " -- per-route hooks accept only ".toList ++ expected.name ++
      (" on this overload (and one of: before_handler, " ++
        "handler_exception, after_handler, response_sent, " ++
        "request_completed -- the post-route-resolution phases). " ++
        "Earlier phases (connection_opened, accept_decision, " ++
        "request_received, body_chunk, route_resolved, " ++
        "connection_closed) are server-scope only because the resource " ++
        "is not yet known when they fire.").toList
  | .emptyRouteCallable => "http_resource::add_hook: hook callable must not be empty".toList

abbrev PhaseTable := SlotTable HookPhase HookFn

structure HookBus where
  table : PhaseTable
  handlerExceptionAlias : Bool
  logAccessAlias : Bool

namespace HookBus

def empty : HookBus := ⟨SlotTable.empty, false, false⟩

def addImpl (b : HookBus) (requested expected : HookPhase) (fn : Option HookFn) :
    Except HookError (HookBus × Nat) :=
  if requested ≠ expected then .error (.phaseMismatch requested expected)
  else match fn with
    | none => .error .emptyCallable
    | some fn => .ok ({ b with table := b.table.push expected fn }, b.table.nextSlotId)

def remove (b : HookBus) (phase : HookPhase) (slotId : Nat) : HookBus :=
  if b.table.holds phase slotId then
    let erased := b.table.erase phase slotId
    let aliasStillWired :=
      (phase = .handlerException && b.handlerExceptionAlias) ||
        (phase = .responseSent && b.logAccessAlias)
    { b with table := if aliasStillWired then erased else erased.closeIfEmpty phase }
  else b

def setHandlerExceptionAlias (b : HookBus) : HookBus :=
  { b with handlerExceptionAlias := true, table := b.table.openGate .handlerException }

def setLogAccessAlias (b : HookBus) : HookBus := { b with logAccessAlias := true }

def hasHooksFor (b : HookBus) (phase : HookPhase) : Bool := b.table.gate phase

end HookBus

abbrev ResourceHookTable := SlotTable HookPhase HookFn

/-- The five phases `http_resource::add_hook` has an overload for. -/
def routePhases : List HookPhase :=
  [.beforeHandler, .handlerException, .afterHandler, .responseSent, .requestCompleted]

def removeSlot (t : ResourceHookTable) (phase : HookPhase) (slotId : Nat) : ResourceHookTable :=
  if phase ∈ routePhases then (t.erase phase slotId).closeIfEmpty phase else t

/-- `impl` says that `impl_` points to the server; `tableWeak` names the
    resource hook table of a per-route handle. -/
structure HookHandle where
  impl : Bool := false
  slotId : Nat := 0
  phase : HookPhase := .count_
  armed : Bool := false
  tableWeak : Option Nat := none
  deriving DecidableEq, Repr

def HookHandle.movedFrom (h : HookHandle) : HookHandle :=
  { h with armed := false, impl := false, tableWeak := none }

/-- Every registration and every handle of one server. A resource hook table
    lives as long as some resource owns it; handles are named objects, and a
    name that was not used yet is a default-constructed handle. -/
structure HookState where
  bus : HookBus
  tables : Nat → ResourceHookTable
  nextTable : Nat
  owners : List (Handler × Nat)
  handles : Nat → HookHandle

namespace HookState

def hookTableRaw (st : HookState) (resource : Handler) : Option ResourceHookTable :=
  (st.owners.lookup resource).map st.tables

def lock (st : HookState) (tableWeak : Option Nat) : Option Nat :=
  tableWeak.filter fun id => st.owners.any (·.2 = id)

def ensureTable (st : HookState) (resource : Handler) : HookState × Nat :=
  match st.owners.lookup resource with
  | some id => (st, id)
  | none =>
    ({ st with
        tables := Function.update st.tables st.nextTable SlotTable.empty
        nextTable := st.nextTable + 1
        owners := (resource, st.nextTable) :: st.owners }, st.nextTable)

def setHandle (st : HookState) (name : Nat) (h : HookHandle) : HookState :=
  { st with handles := Function.update st.handles name h }

def addHook (st : HookState) (requested expected : HookPhase) (fn : Option HookFn) (dst : Nat) :
    Except HookError HookState := do
  let (bus, id) ← st.bus.addImpl requested expected fn
  pure ({ st with bus := bus }.setHandle dst
    { impl := true, slotId := id, phase := expected, armed := true })

def addRouteHook (st : HookState) (resource : Handler) (requested expected : HookPhase)
    (fn : Option HookFn) (dst : Nat) : Except HookError HookState :=
  if requested ≠ expected then .error (.wrongRoutePhase requested expected)
  else match fn with
    | none => .error .emptyRouteCallable
    | some fn =>
      let (st, table) := st.ensureTable resource
      let slotId := (st.tables table).nextSlotId
      .ok ({ st with
          tables := Function.update st.tables table ((st.tables table).push expected fn) }.setHandle
        dst { slotId := slotId, phase := expected, armed := true, tableWeak := some table })

def moveConstruct (st : HookState) (dst src : Nat) : HookState :=
  let other := st.handles src
  (st.setHandle dst other).setHandle src other.movedFrom

/-- `hook_handle::remove`: the handle is disarmed before the slot is erased. -/
def removeHandle (st : HookState) (name : Nat) : HookState :=
  let h := st.handles name
  if !h.armed then st
  else if h.impl then
    let st := st.setHandle name { h with armed := false, impl := false }
    { st with bus := st.bus.remove h.phase h.slotId }
  else
    let st := st.setHandle name { h with armed := false, tableWeak := none }
    match st.lock h.tableWeak with
    | some id =>
      { st with tables := Function.update st.tables id (removeSlot (st.tables id) h.phase h.slotId) }
    | none => st

def moveAssign (st : HookState) (dst src : Nat) : HookState :=
  if dst = src then st else (st.removeHandle dst).moveConstruct dst src

def detach (st : HookState) (dst src : Nat) : HookState :=
  let h := st.handles src
  (st.setHandle src h.movedFrom).setHandle dst { h with armed := false }

def destroy (st : HookState) (name : Nat) : HookState := (st.removeHandle name).setHandle name {}

def destroyResource (st : HookState) (resource : Handler) : HookState :=
  { st with owners := st.owners.filter (·.1 ≠ resource) }

end HookState

inductive HookOp where
  | addHook (requested expected : HookPhase) (fn : Option Nat) (dst : Nat)
  | addRouteHook (resource : Handler) (requested expected : HookPhase) (fn : Option Nat)
      (dst : Nat)
  | moveConstruct (dst src : Nat)
  | moveAssign (dst src : Nat)
  | remove (name : Nat)
  | detach (dst src : Nat)
  | destroy (name : Nat)
  | destroyResource (resource : Handler)
  deriving DecidableEq, Repr

namespace HookState

/-- One step of user code; a registration that throws changes nothing. -/
def step (st : HookState) : HookOp → HookState
  | .addHook requested expected fn dst =>
    (st.addHook requested expected (fn.map .user) dst).toOption.getD st
  | .addRouteHook resource requested expected fn dst =>
    (st.addRouteHook resource requested expected (fn.map .user) dst).toOption.getD st
  | .moveConstruct dst src => st.moveConstruct dst src
  | .moveAssign dst src => st.moveAssign dst src
  | .remove name => st.removeHandle name
  | .detach dst src => st.detach dst src
  | .destroy name => st.destroy name
  | .destroyResource resource => st.destroyResource resource

structure Kept (I : HookState → Prop) : Prop where
  pushed : ∀ {st : HookState} (phase : HookPhase) (fn : HookFn) (dst : Nat), I st →
    I ({ st with bus := { st.bus with table := st.bus.table.push phase fn } }.setHandle dst
      { impl := true, slotId := st.bus.table.nextSlotId, phase := phase, armed := true })
  ensured : ∀ {st : HookState} (resource : Handler), I st → I (st.ensureTable resource).1
  pushedRoute : ∀ {st : HookState} (table : Nat) (phase : HookPhase) (fn : HookFn) (dst : Nat),
    I st → I ({ st with
        tables := Function.update st.tables table ((st.tables table).push phase fn) }.setHandle dst
      { slotId := (st.tables table).nextSlotId, phase := phase, armed := true,
        tableWeak := some table })
  moved : ∀ {st : HookState} (dst src : Nat), I st → I (st.moveConstruct dst src)
  removed : ∀ {st : HookState} (name : Nat), I st → I (st.removeHandle name)
  detached : ∀ {st : HookState} (dst src : Nat), I st → I (st.detach dst src)
  cleared : ∀ {st : HookState} (name : Nat), I st → I (st.setHandle name {})
  disowned : ∀ {st : HookState} (resource : Handler), I st → I (st.destroyResource resource)

namespace Kept
variable {I : HookState → Prop} (kept : Kept I) {st next : HookState}
include kept

variable {requested expected : HookPhase} {fn : Option HookFn} {dst : Nat}

theorem addHook (holds : I st) (added : st.addHook requested expected fn dst = .ok next) :
    I next := by
  unfold HookState.addHook HookBus.addImpl at added
  split at added
  · cases added
  · cases fn with
    | none => cases added
    | some fn =>
      cases added
      exact kept.pushed expected fn dst holds

theorem addRouteHook (holds : I st) {resource : Handler}
    (added : st.addRouteHook resource requested expected fn dst = .ok next) : I next := by
  unfold HookState.addRouteHook at added
  split at added
  · cases added
  · cases fn with
    | none => cases added
    | some fn =>
      cases added
      exact kept.pushedRoute _ expected fn dst (kept.ensured resource holds)

theorem step (holds : I st) (op : HookOp) : I (st.step op) := by
  cases op with
  | addHook requested expected fn dst =>
    dsimp only [HookState.step]
    cases added : st.addHook requested expected (fn.map .user) dst with
    | error _ => exact holds
    | ok next => exact kept.addHook holds added
  | addRouteHook resource requested expected fn dst =>
    dsimp only [HookState.step]
    cases added : st.addRouteHook resource requested expected (fn.map .user) dst with
    | error _ => exact holds
    | ok next => exact kept.addRouteHook holds added
  | moveConstruct dst src => exact kept.moved dst src holds
  | moveAssign dst src =>
    dsimp only [HookState.step, HookState.moveAssign]
    split
    · exact holds
    · exact kept.moved dst src (kept.removed dst holds)
  | remove name => exact kept.removed name holds
  | detach dst src => exact kept.detached dst src holds
  | destroy name => exact kept.cleared name (kept.removed name holds)
  | destroyResource resource => exact kept.disowned resource holds

theorem run (holds : I st) (ops : List HookOp) : I (ops.foldl HookState.step st) :=
  List.foldlRecOn ops HookState.step holds fun _ holds op _ => kept.step holds op

end Kept

-- A slot that leads its phase and that no handle owns stays where it is, whatever user
-- code does with the handles it has.
end HookState

def HookHandle.Owns (h : HookHandle) (phase : HookPhase) (slotId : Nat) : Prop :=
  h.armed = true ∧ h.impl = true ∧ h.phase = phase ∧ h.slotId = slotId

namespace HookState

structure HeldFirst (st : HookState) (phase : HookPhase) (e : Slot HookFn) : Prop where
  leads : st.bus.table.Leads phase e
  unowned : ∀ name, ¬(st.handles name).Owns phase e.slotId

namespace HeldFirst
variable {st : HookState} {phase : HookPhase} {e : Slot HookFn}

theorem setHandle (held : st.HeldFirst phase e) (name : Nat) {h : HookHandle}
    (other : ¬h.Owns phase e.slotId) : (st.setHandle name h).HeldFirst phase e := by
  refine ⟨held.leads, fun name' => ?_⟩
  by_cases same : name' = name
  · rw [same]
    simpa [HookState.setHandle] using other
  · simpa [HookState.setHandle, Function.update_of_ne same] using held.unowned name'

theorem setDisarmed (held : st.HeldFirst phase e) (name : Nat) {h : HookHandle}
    (disarmed : h.armed = false) : (st.setHandle name h).HeldFirst phase e := by
  refine held.setHandle name fun owns => ?_
  rw [owns.1] at disarmed
  cases disarmed

theorem setTables (held : st.HeldFirst phase e) (tables : Nat → ResourceHookTable)
    (nextTable : Nat) (owners : List (Handler × Nat)) :
    ({ st with tables := tables, nextTable := nextTable, owners := owners } : HookState).HeldFirst
      phase e :=
  ⟨held.leads, held.unowned⟩

theorem busRemove {b : HookBus} (leads : b.table.Leads phase e) {q : HookPhase} {id : Nat}
    (other : q = phase → id ≠ e.slotId) : (b.remove q id).table.Leads phase e := by
  unfold HookBus.remove
  split
  · dsimp only
    split
    · exact leads.erase other
    · exact (leads.erase other).closeIfEmpty q
  · exact leads

theorem removeHandle (held : st.HeldFirst phase e) (name : Nat) :
    (st.removeHandle name).HeldFirst phase e := by
  unfold HookState.removeHandle
  dsimp only
  split
  · exact held
  · rename_i armed
    split
    · rename_i server
      have disarmed := held.setDisarmed name
        (h := { st.handles name with armed := false, impl := false }) rfl
      refine ⟨busRemove disarmed.leads fun samePhase sameSlot => ?_, disarmed.unowned⟩
      exact held.unowned name ⟨by simpa using armed, server, samePhase, sameSlot⟩
    · have disarmed := held.setDisarmed name
        (h := { st.handles name with armed := false, tableWeak := none }) rfl
      split
      · exact disarmed.setTables _ _ _
      · exact disarmed

theorem moveConstruct (held : st.HeldFirst phase e) (dst src : Nat) :
    (st.moveConstruct dst src).HeldFirst phase e :=
  (held.setHandle dst (held.unowned src)).setDisarmed src rfl

theorem pushed (held : st.HeldFirst phase e) (target : HookPhase) (fn : HookFn) (dst : Nat) :
    ({ st with bus := { st.bus with table := st.bus.table.push target fn } }.setHandle dst
      { impl := true, slotId := st.bus.table.nextSlotId, phase := target,
        armed := true }).HeldFirst phase e := by
  have pushed : ({ st with
      bus := { st.bus with table := st.bus.table.push target fn } } : HookState).HeldFirst phase e :=
    ⟨held.leads.push target fn, held.unowned⟩
  refine pushed.setHandle dst fun owns => ?_
  exact Nat.ne_of_gt held.leads.slotId_lt owns.2.2.2

theorem ensureTable (held : st.HeldFirst phase e) (resource : Handler) :
    (st.ensureTable resource).1.HeldFirst phase e := by
  unfold HookState.ensureTable
  split
  · exact held
  · exact held.setTables _ _ _

theorem kept : Kept fun st => st.HeldFirst phase e where
  pushed target fn dst held := held.pushed target fn dst
  ensured resource held := held.ensureTable resource
  pushedRoute table target fn dst held := by
    refine (held.setTables _ _ _).setHandle dst fun owns => ?_
    cases owns.2.1
  moved dst src held := held.moveConstruct dst src
  removed name held := held.removeHandle name
  detached dst src held := (held.setDisarmed src rfl).setDisarmed dst rfl
  cleared name held := held.setDisarmed name rfl
  disowned resource held := held.setTables _ _ _

theorem run (held : st.HeldFirst phase e) (ops : List HookOp) :
    (ops.foldl HookState.step st).HeldFirst phase e := kept.run held ops

end HeldFirst
end HookState
end HttpServer
