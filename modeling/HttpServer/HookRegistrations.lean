import HttpServer.Lib.Assoc
import HttpServer.Lib.Custody
import HttpServer.HookFiring

/-!
Hook registrations and their handles. The ledger is kept beside the hook state
by the rules of ownership alone: an accepted `add_hook` gives its registration
to the handle it returns, moves pass it on, `detach` gives it up, and it ends
with a handle that is removed, overwritten or destroyed while it owns it. The
two tables, the disarm flags and the gates agree with it on every run.
-/
namespace HttpServer
open Slots Custody Run
open Function (update update_self update_of_ne)

/-- Where a registration went, `none` for the server's own table, and the slot
    that `add_hook` returned for it. -/
structure Registration where
  table : Option Nat
  phase : HookPhase
  slot : Slot HookFn
  deriving DecidableEq, Repr

def Registration.key (r : Registration) : Option Nat × Nat := (r.table, r.slot.slotId)

def Registration.isAt (table : Option Nat) (phase : HookPhase) (r : Registration) : Bool :=
  r.table = table && r.phase = phase

abbrev HookLedger := Ledger Nat Registration

def storedIn (live : List Registration) (table : Option Nat) (phase : HookPhase) :
    List (Slot HookFn) :=
  (live.filter (Registration.isAt table phase)).map (·.slot)

namespace HookState

def returned (st : HookState) (op : HookOp) (phase : HookPhase) (fn dst : Nat) : Registration :=
  let h := (st.step op).handles dst
  ⟨h.tableWeak, phase, ⟨h.slotId, .user fn⟩⟩

/-- What an operation in state `st` does to the registrations and their owners.
    `add_hook` is accepted when the phase is the overload's and the callable is
    not empty. -/
def record (st : HookState) (op : HookOp) (c : HookLedger) : HookLedger :=
  match op with
  | .addHook requested expected fn dst | .addRouteHook _ requested expected fn dst =>
    (fn.filter fun _ => requested = expected).elim c
      fun fn => c.add dst (st.returned op expected fn dst)
  | .moveConstruct dst src => c.transfer dst src
  | .moveAssign dst src => if dst = src then c else (c.finish dst).transfer dst src
  | .remove name | .destroy name => c.finish name
  | .detach dst src => (c.release src).release dst
  | .destroyResource _ => c

def tableAt (st : HookState) (table : Option Nat) : PhaseTable := table.elim st.bus.table st.tables

def Alive (st : HookState) (table : Option Nat) : Prop :=
  ∀ id, table = some id → st.owners.any (·.2 = id) = true

end HookState

structure HookHandle.Holds (h : HookHandle) (owned : Option Registration) : Prop where
  armed : h.armed = owned.isSome
  points : ∀ r, owned = some r → h.phase = r.phase ∧ h.slotId = r.slot.slotId ∧
    h.impl = r.table.isNone ∧ h.tableWeak = r.table

theorem holds_none {h : HookHandle} (disarmed : h.armed = false) : h.Holds none :=
  ⟨disarmed, fun _ owns => (nomatch owns)⟩

structure TrackedHooks where
  state : HookState
  ledger : HookLedger

namespace TrackedHooks

/-- The hooks a server installs for its configured handlers, in order. Nothing
    owns them. -/
def installed (cfg : WebserverConfig) : List Registration :=
  let wired := [(cfg.authHandler, HookPhase.beforeHandler, HookFn.authAlias),
    (cfg.methodNotAllowedHandler, .beforeHandler, .methodNotAllowedAlias),
    (cfg.notFoundHandler, .routeResolved, .notFoundAlias)].filter (·.1)
  (wired.zipIdx 1).map fun h => ⟨none, h.1.2.1, ⟨h.2, h.1.2.2⟩⟩

def constructed (cfg : WebserverConfig) : TrackedHooks where
  state := HookState.constructed cfg
  ledger := ⟨installed cfg, installed cfg, fun _ => none⟩

def step (s : TrackedHooks) (op : HookOp) : TrackedHooks := ⟨s.state.step op, s.state.record op s.ledger⟩

/-- What the hook state says about the registrations, and what the invariant
    needs besides: slot numbers stay below the counters, table numbers too. -/
structure Linked (s : TrackedHooks) : Prop where
  kept : s.ledger.Kept Registration.key
  stored : ∀ table, s.state.Alive table → ∀ phase,
    (s.state.tableAt table).hooks phase = storedIn s.ledger.live table phase
  handles : ∀ name, (s.state.handles name).Holds (s.ledger.owned name)
  numbered : ∀ r ∈ s.ledger.added, r.slot.slotId < (s.state.tableAt r.table).nextSlotId
  placed : ∀ r ∈ s.ledger.added, ∀ id, r.table = some id →
    id < s.state.nextTable ∧ r.phase ∈ routePhases
  owners : ∀ owner ∈ s.state.owners, owner.2 < s.state.nextTable
  aliasGate : s.state.bus.handlerExceptionAlias = true →
    s.state.bus.table.gate .handlerException = true
  counted : ∀ table, (s.state.tableAt table).nextSlotId ≤ s.ledger.added.length + 1

end TrackedHooks

theorem storedIn_append (live : List Registration) (r : Registration) (table : Option Nat)
    (phase : HookPhase) :
    storedIn (live ++ [r]) table phase =
      storedIn live table phase ++ if r.isAt table phase then [r.slot] else [] := by
  unfold storedIn
  rw [List.filter_append, List.map_append]
  split
  · rename_i here
    simp [here]
  · rename_i away
    simp [away]

theorem storedIn_filter {live : List Registration} {r : Registration}
    (same : ∀ s ∈ live, s.key = r.key → s = r) (table : Option Nat) (phase : HookPhase) :
    storedIn (live.filter fun s => some r ≠ some s) table phase =
      if r.isAt table phase then
        (storedIn live table phase).filter fun e => !decide (e.slotId = r.slot.slotId)
      else storedIn live table phase := by
  unfold storedIn
  rw [List.filter_filter]
  by_cases here : r.isAt table phase = true
  · rw [if_pos here, List.filter_map, List.filter_filter]
    refine congrArg (List.map _) (List.filter_congr fun s listed => ?_)
    by_cases also : s.isAt table phase = true
    · simp only [Registration.isAt, Bool.and_eq_true, decide_eq_true_eq] at here also
      have keys : s.slot.slotId = r.slot.slotId ↔ r = s := by
        constructor
        · intro number
          exact (same s listed (by rw [Registration.key, Registration.key, here.1, also.1, number])).symm
        · rintro rfl
          rfl
      simp [keys, Bool.and_comm]
    · simp [also]
  · rw [if_neg here]
    refine congrArg (List.map _) (List.filter_congr fun s listed => ?_)
    by_cases also : s.isAt table phase = true
    · have other : r ≠ s := fun same => here (same ▸ also)
      simp [also, other]
    · simp [also]

theorem eraseP_slots (t : PhaseTable) (phase : HookPhase) (id : Nat) :
    (t.hooks phase).eraseP (·.slotId = id) =
      (t.hooks phase).filter fun e => !decide (e.slotId = id) := by
  refine eraseP_eq_filter (List.Pairwise.imp (fun apart => ?_) (List.pairwise_map.mp (t.distinct phase)))
  simp only [decide_eq_true_eq, not_and]
  rintro rfl other
  exact apart other.symm

theorem lock_some (st : HookState) (id : Nat) :
    st.lock (some id) = if st.owners.any (·.2 = id) then some id else none := by
  rw [HookState.lock, Option.filter_some]

theorem hooks_busRemove (b : HookBus) (p q : HookPhase) (id : Nat) :
    (b.remove p id).table.hooks q =
      if q = p then (b.table.hooks p).eraseP (·.slotId = id) else b.table.hooks q := by
  unfold HookBus.remove
  split
  · dsimp only
    split
    · by_cases same : q = p <;> simp [SlotTable.erase, same]
    · by_cases same : q = p <;> simp [SlotTable.erase, SlotTable.closeIfEmpty, same]
  · rename_i absent
    by_cases same : q = p
    · subst same
      rw [if_pos rfl, List.eraseP_of_forall_not]
      intro e member hit
      exact absent (List.any_eq_true.mpr ⟨e, member, hit⟩)
    · rw [if_neg same]

theorem hooks_removeSlot (t : ResourceHookTable) {p : HookPhase} (offered : p ∈ routePhases)
    (q : HookPhase) (id : Nat) :
    (removeSlot t p id).hooks q =
      if q = p then (t.hooks p).eraseP (·.slotId = id) else t.hooks q := by
  rw [removeSlot, if_pos offered]
  by_cases same : q = p <;> simp [SlotTable.erase, SlotTable.closeIfEmpty, same]

theorem nextSlotId_busRemove (b : HookBus) (p : HookPhase) (id : Nat) :
    (b.remove p id).table.nextSlotId = b.table.nextSlotId := by
  unfold HookBus.remove
  split
  · dsimp only
    split
    · rfl
    · rfl
  · rfl

theorem nextSlotId_removeSlot (t : ResourceHookTable) (p : HookPhase) (id : Nat) :
    (removeSlot t p id).nextSlotId = t.nextSlotId := by
  unfold removeSlot
  split
  · rfl
  · rfl

theorem aliasGate_busRemove {b : HookBus}
    (wired : b.handlerExceptionAlias = true → b.table.gate .handlerException = true)
    (p : HookPhase) (id : Nat) :
    (b.remove p id).handlerExceptionAlias = true →
      (b.remove p id).table.gate .handlerException = true := by
  unfold HookBus.remove
  split
  · intro still
    have open_ := wired still
    dsimp only at still ⊢
    split
    · exact open_
    · rename_i unwired
      have other : HookPhase.handlerException ≠ p := by
        rintro rfl
        simp [still] at unwired
      simp only [SlotTable.closeIfEmpty]
      split
      · rw [update_of_ne other]
        exact open_
      · exact open_
  · exact wired

namespace TrackedHooks
variable {st st' : HookState} {c : HookLedger} {h : HookHandle} {owned : Nat → Option Registration}
  {handles : Nat → HookHandle} {r : Registration}

theorem Linked.reassign (linked : Linked ⟨st, c⟩)
    (kept : ({ c with owned := owned } : HookLedger).Kept Registration.key)
    (holds : ∀ name, (handles name).Holds (owned name)) :
    Linked ⟨{ st with handles := handles }, { c with owned := owned }⟩ :=
  ⟨kept, linked.stored, holds, linked.numbered, linked.placed, linked.owners, linked.aliasGate,
    linked.counted⟩

theorem holds_update (holds : ∀ name, (handles name).Holds (owned name)) {r : Option Registration}
    (here : h.Holds r) (dst name : Nat) :
    (update handles dst h name).Holds (update owned dst r name) := by
  rcases eq_or_ne name dst with rfl | other
  · simpa using here
  · simpa [update_of_ne other] using holds name

theorem Linked.erase (linked : Linked ⟨st, c⟩) {name : Nat} (owns : c.owned name = some r)
    (hooks : ∀ table, st.Alive table → ∀ phase, (st'.tableAt table).hooks phase =
      if r.isAt table phase then
        ((st.tableAt table).hooks phase).eraseP (·.slotId = r.slot.slotId)
      else (st.tableAt table).hooks phase)
    (numbers : ∀ table, (st'.tableAt table).nextSlotId = (st.tableAt table).nextSlotId)
    (owners : st'.owners = st.owners) (next : st'.nextTable = st.nextTable)
    (handles : st'.handles = update st.handles name h) (disarmed : h.armed = false)
    (gate : st'.bus.handlerExceptionAlias = true →
      st'.bus.table.gate .handlerException = true) : Linked ⟨st', c.finish name⟩ := by
  have member : r ∈ c.live := linked.kept.held name r owns
  refine ⟨linked.kept.finish name, fun table alive phase => ?_, fun other => ?_, fun s added => ?_,
    fun s added => ?_, ?_, gate, fun table => numbers table ▸ linked.counted table⟩
  · have alive : st.Alive table := by simpa only [HookState.Alive, owners] using alive
    have before := linked.stored table alive phase
    dsimp only at before
    simp only [Ledger.finish, owns]
    rw [storedIn_filter (fun s listed same => linked.kept.same_of_key listed member same),
      hooks table alive phase, eraseP_slots, before]
  · dsimp only
    rw [handles]
    exact holds_update linked.handles (holds_none disarmed) name other
  · dsimp only
    rw [numbers]
    exact linked.numbered s added
  · dsimp only
    rw [next]
    exact linked.placed s added
  · dsimp only
    rw [owners, next]
    exact linked.owners

section
variable (linked : Linked ⟨st, c⟩) {name : Nat} {r : Registration} (owns : c.owned name = some r)
  {h : HookHandle} (disarmed : h.armed = false)
include linked owns disarmed

theorem Linked.eraseServer (place : r.table = none) :
    Linked ⟨{ st.setHandle name h with bus := st.bus.remove r.phase r.slot.slotId },
      c.finish name⟩ := by
  refine linked.erase owns (fun table alive q => ?_) (fun table => ?_) rfl rfl rfl disarmed
    (aliasGate_busRemove linked.aliasGate r.phase r.slot.slotId)
  · cases table with
    | none =>
      change (st.bus.remove r.phase r.slot.slotId).table.hooks q = _
      rw [hooks_busRemove]
      by_cases same : q = r.phase
      · simp [Registration.isAt, place, same, HookState.tableAt]
      · simp [Registration.isAt, place, same, Ne.symm same, HookState.tableAt]
    | some id => simp [Registration.isAt, place, HookState.tableAt, HookState.setHandle]
  · cases table with
    | none => exact nextSlotId_busRemove st.bus r.phase r.slot.slotId
    | some id => rfl

theorem Linked.eraseRoute {id : Nat} (place : r.table = some id) :
    Linked ⟨{ st.setHandle name h with
      tables := update st.tables id (removeSlot (st.tables id) r.phase r.slot.slotId) },
      c.finish name⟩ := by
  have member := linked.kept.mem_added (linked.kept.held name r owns)
  have offered := (linked.placed r member id place).2
  refine linked.erase owns (fun table alive q => ?_) (fun table => ?_) rfl rfl rfl disarmed
    linked.aliasGate
  · cases table with
    | none => simp [Registration.isAt, place, HookState.tableAt, HookState.setHandle]
    | some other =>
      by_cases here : other = id
      · subst here
        change (update st.tables other _ other).hooks q = _
        rw [update_self, hooks_removeSlot _ offered]
        by_cases same : q = r.phase
        · simp [Registration.isAt, place, same, HookState.tableAt]
        · simp [Registration.isAt, place, same, Ne.symm same, HookState.tableAt]
      · simp [Registration.isAt, place, here, Ne.symm here, HookState.tableAt,
          HookState.setHandle]
  · cases table with
    | none => rfl
    | some other =>
      by_cases here : other = id
      · subst here
        change (update st.tables other _ other).nextSlotId = _
        rw [update_self, nextSlotId_removeSlot]
        rfl
      · simp [HookState.tableAt, HookState.setHandle, update_of_ne here]

theorem Linked.eraseGone {id : Nat} (place : r.table = some id)
    (gone : ¬st.owners.any (·.2 = id) = true) :
    Linked ⟨st.setHandle name h, c.finish name⟩ := by
  refine linked.erase owns (fun table alive q => ?_) (fun table => rfl) rfl rfl rfl disarmed
    linked.aliasGate
  have away : ¬ r.isAt table q = true := by
    intro here
    simp only [Registration.isAt, Bool.and_eq_true, decide_eq_true_eq] at here
    exact gone (alive id (here.1 ▸ place))
  rw [if_neg away]
  rfl

end

theorem Linked.removeHandle (linked : Linked ⟨st, c⟩) (name : Nat) :
    Linked ⟨st.removeHandle name, c.finish name⟩ := by
  have holds := linked.handles name
  dsimp only at holds
  cases owns : c.owned name with
  | none =>
    have disarmed := holds.armed
    rw [owns, Option.isSome_none] at disarmed
    have same : st.removeHandle name = st := by simp [HookState.removeHandle, disarmed]
    rw [same, Ledger.finish_of_none owns]
    exact linked
  | some r =>
    have armed := holds.armed
    rw [owns, Option.isSome_some] at armed
    obtain ⟨phase, slotId, impl, weak⟩ := holds.points r owns
    cases place : r.table with
    | none =>
      rw [place, Option.isNone_none] at impl
      have program : st.removeHandle name =
          { st.setHandle name { st.handles name with armed := false, impl := false } with
            bus := st.bus.remove r.phase r.slot.slotId } := by
        simp [HookState.removeHandle, armed, impl, phase, slotId, HookState.setHandle]
      rw [program]
      exact linked.eraseServer owns rfl place
    | some id =>
      rw [place, Option.isNone_some] at impl
      have lock := lock_some (st.setHandle name { st.handles name with
        armed := false, tableWeak := none }) id
      by_cases locked : st.owners.any (·.2 = id) = true
      · have program : st.removeHandle name =
            { st.setHandle name { st.handles name with armed := false, tableWeak := none } with
              tables := update st.tables id
                (removeSlot (st.tables id) r.phase r.slot.slotId) } := by
          have found := lock.trans (if_pos locked)
          simp [HookState.removeHandle, armed, impl, phase, slotId, weak, place] at found ⊢
          rw [found]
          rfl
        rw [program]
        exact linked.eraseRoute owns rfl place
      · have program : st.removeHandle name =
            st.setHandle name { st.handles name with armed := false, tableWeak := none } := by
          have missing := lock.trans (if_neg locked)
          simp [HookState.removeHandle, armed, impl, weak, place] at missing ⊢
          rw [missing]
        rw [program]
        exact linked.eraseGone owns rfl place locked

theorem Linked.append (linked : Linked ⟨st, c⟩) {dst : Nat}
    (number : r.slot.slotId = (st.tableAt r.table).nextSlotId)
    (tables : ∀ table, st'.tableAt table =
      if table = r.table then (st.tableAt table).push r.phase r.slot.fn else st.tableAt table)
    (placed : ∀ id, r.table = some id → id < st.nextTable ∧ r.phase ∈ routePhases)
    (owners : st'.owners = st.owners) (next : st'.nextTable = st.nextTable)
    (handles : st'.handles = update st.handles dst h) (holds : h.Holds (some r))
    (gate : st'.bus.handlerExceptionAlias = true →
      st'.bus.table.gate .handlerException = true) : Linked ⟨st', c.add dst r⟩ := by
  have new : r.key ∉ c.added.map Registration.key := by
    intro taken
    obtain ⟨s, added, same⟩ := List.mem_map.mp taken
    have below := linked.numbered s added
    simp only [Registration.key, Prod.mk.injEq] at same
    dsimp only at below
    rw [same.1, same.2, number] at below
    exact Nat.lt_irrefl _ below
  refine ⟨linked.kept.add dst new, fun table alive phase => ?_, fun name => ?_, fun s added => ?_,
    fun s added => ?_, ?_, gate, fun table => ?_⟩
  · have alive : st.Alive table := by simpa only [HookState.Alive, owners] using alive
    have before := linked.stored table alive phase
    dsimp only at before
    simp only [Ledger.add]
    rw [storedIn_append, ← before, tables]
    by_cases here : table = r.table
    · subst here
      rw [if_pos rfl]
      by_cases same : phase = r.phase
      · subst same
        simp [SlotTable.push, Registration.isAt, ← number]
      · simp [SlotTable.push, Registration.isAt, same, Ne.symm same]
    · simp [Registration.isAt, here, Ne.symm here]
  · dsimp only
    rw [handles]
    exact holds_update linked.handles holds dst name
  · have grown : (st.tableAt s.table).nextSlotId ≤ (st'.tableAt s.table).nextSlotId := by
      rw [tables]
      split
      · exact Nat.le_succ _
      · exact Nat.le_refl _
    rcases List.mem_append.mp added with old | last
    · exact Nat.lt_of_lt_of_le (linked.numbered s old) grown
    · rw [List.mem_singleton.mp last]
      dsimp only
      rw [tables, if_pos rfl, number]
      exact Nat.lt_succ_self _
  · dsimp only
    rw [next]
    rcases List.mem_append.mp added with old | last
    · exact linked.placed s old
    · rw [List.mem_singleton.mp last]
      exact placed
  · dsimp only
    rw [owners, next]
    exact linked.owners
  · have before := linked.counted table
    have longer : (c.add dst r).added.length = c.added.length + 1 := List.length_append
    dsimp only at before ⊢
    rw [tables, longer]
    split
    · exact Nat.succ_le_succ before
    · exact Nat.le_succ_of_le before

theorem step_addHook (st : HookState) (phase : HookPhase) (fn dst : Nat) :
    st.step (.addHook phase phase (some fn) dst) =
      { st with bus := { st.bus with table := st.bus.table.push phase (.user fn) } }.setHandle dst
        { impl := true, slotId := st.bus.table.nextSlotId, phase := phase, armed := true } := by
  simp [HookState.step, HookState.addHook, HookBus.addImpl, bind, Except.bind, pure, Except.pure,
    Except.toOption]

theorem Linked.addHook (linked : Linked ⟨st, c⟩) (phase : HookPhase) (fn dst : Nat) :
    let op := HookOp.addHook phase phase (some fn) dst
    Linked ⟨st.step op, c.add dst (st.returned op phase fn dst)⟩ := by
  intro op
  simp only [HookState.returned, op, step_addHook]
  refine linked.append ?_ (fun table => ?_) (fun id route => ?_) rfl rfl rfl ?_ fun wired => ?_
  · simp [HookState.setHandle, HookState.tableAt]
  · cases table with
    | none => simp [HookState.setHandle, HookState.tableAt]
    | some id => simp [HookState.setHandle, HookState.tableAt]
  · simp [HookState.setHandle] at route
  · refine ⟨rfl, fun r owned => ?_⟩
    cases owned
    simp [HookState.setHandle]
  · have open_ := linked.aliasGate wired
    change update st.bus.table.gate phase true .handlerException = true
    rcases eq_or_ne HookPhase.handlerException phase with rfl | other
    · rw [update_self]
    · rw [update_of_ne other]
      exact open_

theorem Linked.ensureTable (linked : Linked ⟨st, c⟩) (resource : Handler) :
    Linked ⟨(st.ensureTable resource).1, c⟩ ∧
      (st.ensureTable resource).2 < (st.ensureTable resource).1.nextTable := by
  unfold HookState.ensureTable
  cases found : st.owners.lookup resource with
  | some id => exact ⟨linked, linked.owners _ (Assoc.mem_of_lookup found)⟩
  | none =>
    refine ⟨⟨linked.kept, fun table alive phase => ?_, linked.handles, fun r added => ?_,
      fun r added id route => ?_, fun owner listed => ?_, linked.aliasGate, fun table => ?_⟩,
      Nat.lt_succ_self _⟩
    · cases table with
      | none => exact linked.stored none (fun id same => (nomatch same)) phase
      | some id =>
        by_cases new : id = st.nextTable
        · -- no registration can have gone to a table that was not there
          subst new
          have unused : c.live.filter (Registration.isAt (some st.nextTable) phase) = [] := by
            refine List.filter_eq_nil_iff.mpr fun r live here => ?_
            simp only [Registration.isAt, Bool.and_eq_true, decide_eq_true_eq] at here
            exact Nat.lt_irrefl _ (linked.placed r (linked.kept.mem_added live) _ here.1).1
          dsimp only
          rw [storedIn, unused]
          simp [HookState.tableAt, SlotTable.empty]
        · have old : st.Alive (some id) := by
            intro id' same
            cases same
            simpa [Ne.symm new] using alive id rfl
          have before := linked.stored (some id) old phase
          simpa [HookState.tableAt, update_of_ne new] using before
    · have below := linked.numbered r added
      cases place : r.table with
      | none => simpa [place, HookState.tableAt] using below
      | some id =>
        have old : id ≠ st.nextTable := Nat.ne_of_lt (linked.placed r added id place).1
        simpa [place, HookState.tableAt, update_of_ne old] using below
    · have before := linked.placed r added id route
      exact ⟨Nat.lt_succ_of_lt before.1, before.2⟩
    · rcases List.mem_cons.mp listed with rfl | old
      · exact Nat.lt_succ_self _
      · exact Nat.lt_succ_of_lt (linked.owners owner old)
    · have before := linked.counted table
      cases table with
      | none => exact before
      | some id =>
        by_cases new : id = st.nextTable
        · simp [HookState.tableAt, new, SlotTable.empty]
        · simpa [HookState.tableAt, update_of_ne new] using before

theorem step_addRouteHook (st : HookState) (resource : Handler) (phase : HookPhase)
    (fn dst : Nat) :
    let table := (st.ensureTable resource).2
    let old := (st.ensureTable resource).1.tables table
    st.step (.addRouteHook resource phase phase (some fn) dst) =
      { (st.ensureTable resource).1 with
        tables := update (st.ensureTable resource).1.tables table
          (old.push phase (.user fn)) }.setHandle dst
        { slotId := old.nextSlotId, phase := phase, armed := true, tableWeak := some table } := by
  simp [HookState.step, HookState.addRouteHook, Except.toOption]

theorem Linked.addRouteHook (linked : Linked ⟨st, c⟩) (resource : Handler) {phase : HookPhase}
    (offered : phase ∈ routePhases) (fn dst : Nat) :
    let op := HookOp.addRouteHook resource phase phase (some fn) dst
    Linked ⟨st.step op, c.add dst (st.returned op phase fn dst)⟩ := by
  intro op
  obtain ⟨ensured, below⟩ := linked.ensureTable resource
  simp only [HookState.returned, op, step_addRouteHook]
  refine ensured.append ?_ (fun table => ?_) (fun id route => ?_) rfl rfl rfl ?_ ensured.aliasGate
  · simp [HookState.setHandle, HookState.tableAt]
  · cases table with
    | none => simp [HookState.setHandle, HookState.tableAt]
    | some id =>
      by_cases here : id = (st.ensureTable resource).2
      · subst here
        simp [HookState.setHandle, HookState.tableAt]
      · simp [HookState.setHandle, HookState.tableAt, here]
  · simp only [HookState.setHandle, update_self, Option.some.injEq] at route
    exact ⟨route ▸ below, offered⟩
  · refine ⟨rfl, fun r owned => ?_⟩
    cases owned
    simp [HookState.setHandle]

theorem Linked.moveConstruct (linked : Linked ⟨st, c⟩) (dst src : Nat) :
    Linked ⟨st.moveConstruct dst src, c.transfer dst src⟩ :=
  linked.reassign (linked.kept.transfer dst src)
    (holds_update (holds_update linked.handles (linked.handles src) dst) (holds_none rfl) src)

theorem Linked.moveAssign (linked : Linked ⟨st, c⟩) (dst src : Nat) :
    Linked ⟨st.moveAssign dst src,
      if dst = src then c else (c.finish dst).transfer dst src⟩ := by
  unfold HookState.moveAssign
  split
  · exact linked
  · exact (linked.removeHandle dst).moveConstruct dst src

theorem Linked.detach (linked : Linked ⟨st, c⟩) (dst src : Nat) :
    Linked ⟨st.detach dst src, (c.release src).release dst⟩ :=
  linked.reassign ((linked.kept.release src).release dst)
    (holds_update (holds_update linked.handles (holds_none rfl) src) (holds_none rfl) dst)

theorem Linked.destroy (linked : Linked ⟨st, c⟩) (name : Nat) :
    Linked ⟨st.destroy name, c.finish name⟩ := by
  have removed := linked.removeHandle name
  have again : c.finish name = { c.finish name with
      owned := update (c.finish name).owned name none } := by
    simp [Ledger.finish]
  rw [again]
  exact removed.reassign (again ▸ removed.kept) (holds_update removed.handles (holds_none rfl) name)

theorem Linked.destroyResource (linked : Linked ⟨st, c⟩) (resource : Handler) :
    Linked ⟨st.destroyResource resource, c⟩ := by
  refine ⟨linked.kept, fun table alive => ?_, linked.handles, linked.numbered, linked.placed,
    fun owner listed => linked.owners owner (List.mem_filter.mp listed).1, linked.aliasGate,
    linked.counted⟩
  refine linked.stored table fun id same => ?_
  obtain ⟨owner, listed, here⟩ := List.any_eq_true.mp (alive id same)
  exact List.any_eq_true.mpr ⟨owner, (List.mem_filter.mp listed).1, here⟩

end TrackedHooks

/-- `http_resource` has an `add_hook` overload for five phases only. -/
def HookOp.offered : HookOp → Bool
  | .addRouteHook _ _ expected _ _ => decide (expected ∈ routePhases)
  | _ => true

namespace TrackedHooks

variable {s : TrackedHooks} {ops : List HookOp}

theorem Linked.step (linked : s.Linked) {op : HookOp} (offered : op.offered = true) :
    (s.step op).Linked := by
  obtain ⟨st, c⟩ := s
  cases op with
  | addHook requested expected fn dst =>
    cases fn with
    | none =>
      have refused : st.step (.addHook requested expected none dst) = st := by
        by_cases same : requested = expected <;>
          simp [HookState.step, HookState.addHook, HookBus.addImpl, same, bind, Except.bind,
            Except.toOption]
      rw [TrackedHooks.step, refused]
      exact linked
    | some fn =>
      by_cases same : requested = expected
      · subst same
        simpa [TrackedHooks.step, HookState.record, Option.filter_some] using linked.addHook requested fn dst
      · have refused : st.step (.addHook requested expected (some fn) dst) = st := by
          simp [HookState.step, HookState.addHook, HookBus.addImpl, same, bind, Except.bind,
            Except.toOption]
        simpa [TrackedHooks.step, HookState.record, refused, same] using linked
  | addRouteHook resource requested expected fn dst =>
    cases fn with
    | none =>
      have refused : st.step (.addRouteHook resource requested expected none dst) = st := by
        by_cases same : requested = expected <;>
          simp [HookState.step, HookState.addRouteHook, same, Except.toOption]
      rw [TrackedHooks.step, refused]
      exact linked
    | some fn =>
      by_cases same : requested = expected
      · subst same
        simpa [TrackedHooks.step, HookState.record, Option.filter_some] using
          linked.addRouteHook resource (of_decide_eq_true offered) fn dst
      · have refused : st.step (.addRouteHook resource requested expected (some fn) dst) = st := by
          simp [HookState.step, HookState.addRouteHook, same, Except.toOption]
        simpa [TrackedHooks.step, HookState.record, refused, same] using linked
  | moveConstruct dst src => exact linked.moveConstruct dst src
  | moveAssign dst src => exact linked.moveAssign dst src
  | remove name => exact linked.removeHandle name
  | detach dst src => exact linked.detach dst src
  | destroy name => exact linked.destroy name
  | destroyResource resource => exact linked.destroyResource resource

variable (cfg : WebserverConfig)

theorem hooks_installed (phase : HookPhase) :
    (installDefaultAliasHooks cfg).table.hooks phase = storedIn (installed cfg) none phase := by
  unfold installDefaultAliasHooks installed
  cases cfg.authHandler <;> cases cfg.methodNotAllowedHandler <;> cases cfg.notFoundHandler <;>
    cases cfg.internalErrorHandler <;> cases cfg.logAccess <;> cases phase <;> rfl

theorem installed_sound :
    ((installed cfg).map Registration.key).Nodup ∧
      (installDefaultAliasHooks cfg).table.nextSlotId = (installed cfg).length + 1 ∧
      ∀ r ∈ installed cfg,
        r.table = none ∧ r.slot.slotId < (installDefaultAliasHooks cfg).table.nextSlotId := by
  unfold installDefaultAliasHooks installed
  cases cfg.authHandler <;> cases cfg.methodNotAllowedHandler <;> cases cfg.notFoundHandler <;>
    cases cfg.internalErrorHandler <;> cases cfg.logAccess <;> decide

theorem aliasGate_installed :
    (installDefaultAliasHooks cfg).handlerExceptionAlias = true →
      (installDefaultAliasHooks cfg).table.gate .handlerException = true := by
  unfold installDefaultAliasHooks
  cases cfg.internalErrorHandler with
  | true => cases cfg.logAccess <;> exact fun _ => rfl
  | false => cases cfg.authHandler <;> cases cfg.methodNotAllowedHandler <;>
      cases cfg.notFoundHandler <;> cases cfg.logAccess <;> exact fun wired => nomatch wired

theorem linked_constructed : (constructed cfg).Linked := by
  obtain ⟨distinct, counted, sound⟩ := installed_sound cfg
  refine ⟨Ledger.Kept.start _ distinct, fun table alive phase => ?_,
    fun name => holds_none rfl, fun r added => ?_, fun r added id route => ?_,
    fun owner listed => (nomatch listed), aliasGate_installed cfg, fun table => ?_⟩
  · cases table with
    | none => exact hooks_installed cfg phase
    | some id => exact (nomatch alive id rfl)
  · obtain ⟨server, below⟩ := sound r added
    rw [server]
    exact below
  · have server := (sound r added).1
    rw [route] at server
    cases server
  · cases table with
    | none => exact Nat.le_of_eq counted
    | some id => exact Nat.succ_le_succ (Nat.zero_le _)

theorem linked_run (linked : s.Linked) (offered : ∀ op ∈ ops, op.offered = true) :
    (ops.foldl step s).Linked := by
  induction ops generalizing s with
  | nil => exact linked
  | cons op ops ih =>
    exact ih (linked.step (offered op List.mem_cons_self))
      fun op listed => offered op (List.mem_cons_of_mem _ listed)

theorem state_run (s : TrackedHooks) (ops : List HookOp) :
    (ops.foldl step s).state = ops.foldl HookState.step s.state := by
  induction ops generalizing s with
  | nil => rfl
  | cons op ops ih => exact ih (s.step op)

/-- A slot counter is raised by accepted calls of `add_hook` only, so with fewer of
    them than 2^64 it is the counter of the source. -/
theorem slot_counter_fits (offered : ∀ op ∈ ops, op.offered = true)
    (few : (ops.foldl step (constructed cfg)).ledger.added.length + 1 < UInt64.size)
    (table : Option Nat) :
    let counter := ((ops.foldl step (constructed cfg)).state.tableAt table).nextSlotId
    (UInt64.ofNat counter).toNat = counter := by
  intro counter
  have counted := (linked_run (linked_constructed cfg) offered).counted table
  exact UInt64.toNat_ofNat_of_lt (Nat.lt_of_le_of_lt counted few)

end TrackedHooks

structure HookState.Reflects (st : HookState) (c : HookLedger) : Prop where
  stored : ∀ table, st.Alive table → ∀ phase,
    (st.tableAt table).hooks phase = storedIn c.live table phase
  inOrder : c.live.Sublist c.added
  armed : ∀ name, (st.handles name).Holds (c.owned name)
  live : ∀ name r, c.owned name = some r → r ∈ c.live
  soleOwner : ∀ one two r, c.owned one = some r → c.owned two = some r → one = two
  freshSlots : ∀ table, ((c.added.filter (·.table = table)).map (·.slot.slotId)).Nodup
  gates : ∀ table, st.Alive table → ∀ phase, (st.tableAt table).hooks phase ≠ [] →
    (st.tableAt table).gate phase = true
  aliasGate : st.bus.handlerExceptionAlias = true → st.bus.hasHooksFor .handlerException = true

theorem freshSlots_of_distinct {added : List Registration}
    (distinct : (added.map Registration.key).Nodup) (table : Option Nat) :
    ((added.filter (·.table = table)).map (·.slot.slotId)).Nodup := by
  have part := distinct.sublist ((List.filter_sublist (p := fun r => decide (r.table = table))).map
    Registration.key)
  have keys : (added.filter (·.table = table)).map Registration.key =
      ((added.filter (·.table = table)).map (·.slot.slotId)).map (Prod.mk table) := by
    rw [List.map_map]
    refine List.map_congr_left fun r listed => ?_
    have here : r.table = table := by simpa using (List.mem_filter.mp listed).2
    simp [Registration.key, here]
  rw [keys] at part
  exact part.of_map _

/-- After any operations on hooks and handles, resources destroyed among them,
    the stored hooks are the registrations that no handle has ended. -/
theorem registrations_are_their_handles (cfg : WebserverConfig) (ops : List HookOp)
    (offered : ∀ op ∈ ops, op.offered = true) :
    (ops.foldl HookState.step (HookState.constructed cfg)).Reflects
      (ops.foldl TrackedHooks.step (TrackedHooks.constructed cfg)).ledger := by
  have linked := TrackedHooks.linked_run (TrackedHooks.linked_constructed cfg) offered
  have state := TrackedHooks.state_run (TrackedHooks.constructed cfg) ops
  rw [show HookState.constructed cfg = (TrackedHooks.constructed cfg).state from rfl, ← state]
  exact ⟨linked.stored, linked.kept.listed, linked.handles, linked.kept.held, linked.kept.unique,
    freshSlots_of_distinct linked.kept.distinct, fun table _ phase => SlotTable.gated _ phase,
    linked.aliasGate⟩

def handleOps : List HookOp :=
  [.addHook .afterHandler .afterHandler (some 1) 0, .addHook .afterHandler .afterHandler (some 2) 1,
   .addRouteHook (.resource 7) .beforeHandler .beforeHandler (some 3) 2,
   .moveConstruct 3 0, .detach 4 1, .remove 0, .remove 3, .destroyResource (.resource 7),
   .destroy 2]

theorem moved_and_detached_hooks :
    (handleOps.foldl HookState.step (HookState.constructed {})).Reflects
        (handleOps.foldl TrackedHooks.step (TrackedHooks.constructed {})).ledger ∧
      (handleOps.foldl HookState.step (HookState.constructed {})).bus.table.hooks .afterHandler =
        [⟨2, .user 2⟩] :=
  ⟨registrations_are_their_handles {} handleOps (by decide), by decide⟩

end HttpServer
