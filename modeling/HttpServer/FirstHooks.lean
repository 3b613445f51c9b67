import HttpServer.HookBus
import Mathlib.Algebra.BigOperators.Fin

/-!
Several threads that add the first hooks of one resource. `add_hook` loads the
pointer to the resource's hook table; when there is none it makes a table and
tries to install it with a compare-exchange, and the thread that loses takes the
winner's table. Numbering the slot and storing it are two more steps, the second
one under the table's lock. The steps of different threads interleave freely.
-/
namespace HttpServer
open Slots
open Function (update update_self update_of_ne update_eq_self)

structure HookTable where
  nextSlotId : Nat := 1
  hooks : HookPhase → List (Slot HookFn) := fun _ => []
  anyHooks : HookPhase → Bool := fun _ => false

namespace HookTable

/-- `next_slot_id.fetch_add(1)`, whose result is the counter before. -/
def fetchAdd (t : HookTable) : HookTable := { t with nextSlotId := t.nextSlotId + 1 }

def pushBack (t : HookTable) (phase : HookPhase) (id : Nat) (fn : HookFn) : HookTable :=
  { t with
    hooks := update t.hooks phase (t.hooks phase ++ [⟨id, fn⟩])
    anyHooks := update t.anyHooks phase true }

def ofSlots (t : ResourceHookTable) : HookTable := ⟨t.nextSlotId, t.hooks, t.gate⟩

theorem ofSlots_push (t : ResourceHookTable) (phase : HookPhase) (fn : HookFn) :
    ofSlots (t.push phase fn) = (ofSlots t).fetchAdd.pushBack phase t.nextSlotId fn := rfl

section
variable (tables : Nat → HookTable) (table t : Nat)

theorem hooks_fetchAdd_at :
    (update tables table (tables table).fetchAdd t).hooks = (tables t).hooks := by
  rcases eq_or_ne t table with rfl | other
  · rw [update_self]
    rfl
  · rw [update_of_ne other]

theorem counter_fetchAdd_at : (tables t).nextSlotId ≤
    (update tables table (tables table).fetchAdd t).nextSlotId := by
  rcases eq_or_ne t table with rfl | other
  · rw [update_self]
    exact Nat.le_succ _
  · rw [update_of_ne other]

theorem counter_fetchAdd_le :
    (update tables table (tables table).fetchAdd t).nextSlotId ≤
      (tables t).nextSlotId + 1 := by
  rcases eq_or_ne t table with rfl | other
  · rw [update_self]
    exact Nat.le_refl _
  · rw [update_of_ne other]
    exact Nat.le_succ _

variable (phase : HookPhase) (k : Nat) (fn : HookFn)

theorem counter_pushBack_at :
    (update tables table ((tables table).pushBack phase k fn) t).nextSlotId =
      (tables t).nextSlotId := by
  rcases eq_or_ne t table with rfl | other
  · rw [update_self]
    rfl
  · rw [update_of_ne other]

theorem hooks_pushBack_at (q : HookPhase) :
    (update tables table ((tables table).pushBack phase k fn) t).hooks q =
      if t = table ∧ q = phase then (tables t).hooks q ++ [⟨k, fn⟩] else (tables t).hooks q := by
  rcases eq_or_ne t table with rfl | other
  · rw [update_self]
    rcases eq_or_ne q phase with rfl | elsewhere
    · rw [if_pos ⟨rfl, rfl⟩]
      exact update_self ..
    · rw [if_neg fun both => elsewhere both.2]
      exact update_of_ne elsewhere ..
  · rw [update_of_ne other, if_neg fun both => other both.1]

end
end HookTable

structure AddHook where
  requested : HookPhase
  expected : HookPhase
  fn : Option HookFn

def AddHook.check (call : AddHook) : Except HookError HookFn :=
  if call.requested ≠ call.expected then .error (.wrongRoutePhase call.requested call.expected)
  else match call.fn with
    | none => .error .emptyRouteCallable
    | some fn => .ok fn

/-- How far a call of `add_hook` has come: it has loaded a null pointer and made
    a table, has its table, has its slot number, or is over. -/
inductive HookThread where
  | entered
  | missed (fresh : Nat) (fn : HookFn)
  | attached (table : Nat) (fn : HookFn)
  | numbered (table id : Nat) (fn : HookFn)
  | returned (table id : Nat)
  | threw (e : HookError)
  deriving DecidableEq, Repr

namespace HookThread

def finished : HookThread → Bool
  | .returned .. => true
  | .threw _ => true
  | _ => false

def table : HookThread → Option Nat
  | .attached table _ => some table
  | .numbered table _ _ => some table
  | .returned table _ => some table
  | _ => none

def ticket : HookThread → Option (Nat × Nat)
  | .numbered table id _ => some (table, id)
  | .returned table id => some (table, id)
  | _ => none

def carried : HookThread → Option HookFn
  | .missed _ fn => some fn
  | .attached _ fn => some fn
  | .numbered _ _ fn => some fn
  | _ => none

end HookThread

/-- The pointer `hook_table_` of the resource, the tables made so far, and the
    threads. -/
structure FirstHooks (n : Nat) where
  hookTable : Option Nat := none
  tables : Nat → HookTable := fun _ => {}
  made : Nat := 0
  threads : Fin n → HookThread := fun _ => .entered

namespace FirstHooks
variable {n : Nat}

/-- The next atomic step of thread `i`. The checks touch nothing shared. -/
def step (calls : Fin n → AddHook) (s : FirstHooks n) (i : Fin n) : FirstHooks n :=
  match s.threads i with
  | .entered =>
    match (calls i).check with
    | .error e => { s with threads := update s.threads i (.threw e) }
    | .ok fn =>
      match s.hookTable with
      | some table => { s with threads := update s.threads i (.attached table fn) }
      | none =>
        { s with made := s.made + 1, threads := update s.threads i (.missed s.made fn) }
  | .missed fresh fn =>
    match s.hookTable with
    | none =>
      { s with
        hookTable := some fresh
        threads := update s.threads i (.attached fresh fn) }
    | some expected => { s with threads := update s.threads i (.attached expected fn) }
  | .attached table fn =>
    { s with
      tables := update s.tables table (s.tables table).fetchAdd
      threads := update s.threads i (.numbered table (s.tables table).nextSlotId fn) }
  | .numbered table id fn =>
    { s with
      tables := update s.tables table ((s.tables table).pushBack (calls i).expected id fn)
      threads := update s.threads i (.returned table id) }
  | .returned .. => s
  | .threw _ => s

def run (calls : Fin n → AddHook) (schedule : List (Fin n)) : FirstHooks n :=
  schedule.foldl (step calls) {}

structure ThreadOk (calls : Fin n → AddHook) (s : FirstHooks n) (i : Fin n) (a : HookThread) :
    Prop where
  same : ∀ table, a.table = some table → s.hookTable = some table
  below : ∀ table id, a.ticket = some (table, id) → id < (s.tables table).nextSlotId
  checked : ∀ fn, a.carried = some fn → (calls i).check = .ok fn
  refused : ∀ e, a = .threw e → (calls i).check = .error e
  stored : ∀ table id, a = .returned table id →
    ∃ fn, (calls i).check = .ok fn ∧ ⟨id, fn⟩ ∈ (s.tables table).hooks (calls i).expected

structure Later (s next : FirstHooks n) : Prop where
  installed : ∀ table, s.hookTable = some table → next.hookTable = some table
  counted : ∀ table, (s.tables table).nextSlotId ≤ (next.tables table).nextSlotId
  kept : ∀ table phase e, e ∈ (s.tables table).hooks phase → e ∈ (next.tables table).hooks phase

theorem ThreadOk.later {calls : Fin n → AddHook} {s next : FirstHooks n} {i : Fin n}
    {a : HookThread} (ok : ThreadOk calls s i a) (later : Later s next) :
    ThreadOk calls next i a where
  same table has := later.installed table (ok.same table has)
  below table id has := Nat.lt_of_lt_of_le (ok.below table id has) (later.counted table)
  checked := ok.checked
  refused := ok.refused
  stored table id done := by
    obtain ⟨fn, passed, listed⟩ := ok.stored table id done
    exact ⟨fn, passed, later.kept table _ _ listed⟩

structure Inv (calls : Fin n → AddHook) (s : FirstHooks n) : Prop where
  threads : ∀ i, ThreadOk calls s i (s.threads i)
  apart : ∀ i j ticket, (s.threads i).ticket = some ticket → (s.threads j).ticket = some ticket →
    i = j
  origin : ∀ table phase e, e ∈ (s.tables table).hooks phase →
    ∃ i, s.threads i = .returned table e.slotId ∧ (calls i).expected = phase
  distinct : ∀ table phase, (((s.tables table).hooks phase).map (·.slotId)).Nodup

namespace Inv
variable {calls : Fin n → AddHook} {s : FirstHooks n} {i : Fin n} {table : Nat} {fn : HookFn}
  {a : HookThread}

theorem threads_update (inv : Inv calls s) {next : FirstHooks n}
    (moved : next.threads = update s.threads i a) (later : Later s next)
    (new : ThreadOk calls next i a) : ∀ j, ThreadOk calls next j (next.threads j) := by
  intro j
  rw [moved]
  rcases eq_or_ne j i with rfl | other
  · rw [update_self]
    exact new
  · rw [update_of_ne other]
    exact (inv.threads j).later later

theorem apart_update (inv : Inv calls s)
    (new : ∀ j, j ≠ i → ∀ ticket, a.ticket = some ticket → (s.threads j).ticket ≠ some ticket) :
    ∀ j k ticket, (update s.threads i a j).ticket = some ticket →
      (update s.threads i a k).ticket = some ticket → j = k := by
  intro j k ticket left right
  rcases eq_or_ne j i with rfl | jOther
  · rcases eq_or_ne k j with rfl | kOther
    · rfl
    · rw [update_self] at left
      rw [update_of_ne kOther] at right
      exact absurd right (new k kOther ticket left)
  · rw [update_of_ne jOther] at left
    rcases eq_or_ne k i with rfl | kOther
    · rw [update_self] at right
      exact absurd left (new j jOther ticket right)
    · rw [update_of_ne kOther] at right
      exact inv.apart j k ticket left right

theorem origin_update (inv : Inv calls s) (running : (s.threads i).finished = false)
    (a : HookThread) {phase : HookPhase} {e : Slot HookFn}
    (listed : e ∈ (s.tables table).hooks phase) :
    ∃ j, update s.threads i a j = .returned table e.slotId ∧
      (calls j).expected = phase := by
  obtain ⟨j, done, expected⟩ := inv.origin table phase e listed
  have other : j ≠ i := by
    rintro rfl
    rw [done] at running
    cases running
  exact ⟨j, (update_of_ne other ..).trans done, expected⟩

theorem walk (inv : Inv calls s) (running : (s.threads i).finished = false) {slot : Option Nat}
    (made : Nat) (unnumbered : a.ticket = none)
    (grown : ∀ table, s.hookTable = some table → slot = some table)
    (own : ∀ table, a.table = some table → slot = some table)
    (checked : ∀ fn, a.carried = some fn → (calls i).check = .ok fn)
    (refused : ∀ e, a = .threw e → (calls i).check = .error e) :
    Inv calls { s with
      hookTable := slot
      made := made
      threads := update s.threads i a } where
  threads := by
    refine inv.threads_update rfl ⟨grown, fun _ => Nat.le_refl _, fun _ _ _ => id⟩ ?_
    refine ⟨own, fun table id has => ?_, checked, refused, fun table id done => ?_⟩
    · rw [unnumbered] at has
      cases has
    · rw [done] at unnumbered
      cases unnumbered
  apart := inv.apart_update fun j _ ticket has => by
    rw [unnumbered] at has
    cases has
  origin _ _ _ := inv.origin_update running a
  distinct := inv.distinct

theorem number (inv : Inv calls s) (at_ : s.threads i = .attached table fn) :
    Inv calls { s with
      tables := update s.tables table (s.tables table).fetchAdd
      threads := update s.threads i
        (.numbered table (s.tables table).nextSlotId fn) } := by
  have own := inv.threads i
  rw [at_] at own
  have running : (s.threads i).finished = false := congrArg HookThread.finished at_
  have hooks := HookTable.hooks_fetchAdd_at s.tables table
  constructor
  · refine inv.threads_update rfl ⟨fun _ => id, HookTable.counter_fetchAdd_at s.tables table,
      fun t phase e listed => ?_⟩ ?_
    · rw [hooks]
      exact listed
    · refine ⟨own.same, fun t id has => ?_, own.checked, nofun, nofun⟩
      cases has
      dsimp only
      rw [update_self]
      exact Nat.lt_succ_self _
  · refine inv.apart_update fun j _ ticket has taken => ?_
    cases has
    exact Nat.lt_irrefl _ ((inv.threads j).below _ _ taken)
  · intro t phase e listed
    rw [hooks] at listed
    exact inv.origin_update running _ listed
  · intro t phase
    rw [hooks]
    exact inv.distinct t phase

theorem number_fresh (inv : Inv calls s) {k : Nat} (at_ : s.threads i = .numbered table k fn)
    (phase : HookPhase) : k ∉ ((s.tables table).hooks phase).map (·.slotId) := by
  intro taken
  obtain ⟨e, listed, rfl⟩ := List.mem_map.mp taken
  obtain ⟨j, done, -⟩ := inv.origin table phase e listed
  have same : j = i := inv.apart j i (table, e.slotId) (congrArg HookThread.ticket done)
    (congrArg HookThread.ticket at_)
  rw [same, at_] at done
  cases done

theorem append (inv : Inv calls s) {k : Nat} (at_ : s.threads i = .numbered table k fn) :
    Inv calls { s with
      tables := update s.tables table ((s.tables table).pushBack (calls i).expected k fn)
      threads := update s.threads i (.returned table k) } := by
  have own := inv.threads i
  rw [at_] at own
  have running : (s.threads i).finished = false := congrArg HookThread.finished at_
  have counter (t : Nat) :=
    HookTable.counter_pushBack_at s.tables table t (calls i).expected k fn
  have hooks (t : Nat) := HookTable.hooks_pushBack_at s.tables table t (calls i).expected k fn
  constructor
  · have counted (t : Nat) := Nat.le_of_eq (counter t).symm
    refine inv.threads_update rfl ⟨fun _ => id, counted, fun t phase e listed => ?_⟩ ?_
    · rw [hooks]
      split
      · exact List.mem_append_left _ listed
      · exact listed
    · refine ⟨own.same, fun t j has => ?_, nofun, nofun, fun t j done => ?_⟩
      · rw [counter]
        exact own.below t j has
      · cases done
        refine ⟨fn, own.checked fn rfl, ?_⟩
        rw [hooks, if_pos ⟨rfl, rfl⟩]
        exact List.mem_append_right _ (List.mem_singleton_self _)
  · refine inv.apart_update fun j other ticket has taken => other ?_
    exact inv.apart j i ticket taken ((congrArg HookThread.ticket at_).trans has)
  · intro t phase e listed
    rw [hooks] at listed
    split at listed
    · rename_i here
      obtain ⟨rfl, rfl⟩ := here
      rcases List.mem_append.mp listed with old | new
      · exact inv.origin_update running _ old
      · cases List.mem_singleton.mp new
        exact ⟨i, update_self .., rfl⟩
    · exact inv.origin_update running _ listed
  · intro t phase
    rw [hooks]
    split
    · rename_i here
      obtain ⟨rfl, rfl⟩ := here
      rw [List.map_append, List.map_singleton, ← List.concat_eq_append]
      exact List.Nodup.concat (inv.number_fresh at_ _) (inv.distinct t _)
    · exact inv.distinct t phase

theorem enter (inv : Inv calls s) (at_ : s.threads i = .entered) :
    Inv calls (step calls s i) := by
  have running : (s.threads i).finished = false := congrArg HookThread.finished at_
  rw [FirstHooks.step, at_]
  dsimp only
  cases passed : (calls i).check with
  | error e =>
    refine inv.walk running s.made rfl (fun _ => id) nofun nofun ?_
    intro e' same
    cases same
    exact passed
  | ok fn =>
    have carries : ∀ fn', some fn = some fn' → (calls i).check = .ok fn' := by
      intro fn' same
      cases same
      exact passed
    cases loaded : s.hookTable with
    | some table =>
      exact inv.walk running s.made rfl (fun _ has => loaded.symm.trans has) (fun _ => id)
        carries nofun
    | none =>
      exact inv.walk running (s.made + 1) rfl (fun _ has => loaded.symm.trans has) nofun
        carries nofun

theorem exchange (inv : Inv calls s) {fresh : Nat} (at_ : s.threads i = .missed fresh fn) :
    Inv calls (step calls s i) := by
  have running : (s.threads i).finished = false := congrArg HookThread.finished at_
  have carries : ∀ fn', some fn = some fn' → (calls i).check = .ok fn' := by
    intro fn' same
    apply (inv.threads i).checked
    rw [at_]
    exact same
  rw [FirstHooks.step, at_]
  dsimp only
  cases held : s.hookTable with
  | none =>
    refine inv.walk running s.made rfl ?_ (fun _ => id) carries nofun
    intro t installed
    rw [held] at installed
    cases installed
  | some winner =>
    exact inv.walk running s.made rfl (fun _ has => held.symm.trans has) (fun _ => id)
      carries nofun

theorem step (inv : Inv calls s) (i : Fin n) : Inv calls (step calls s i) := by
  cases at_ : s.threads i with
  | entered => exact inv.enter at_
  | missed fresh fn => exact inv.exchange at_
  | attached table fn =>
    rw [FirstHooks.step, at_]
    exact inv.number at_
  | numbered table k fn =>
    rw [FirstHooks.step, at_]
    exact inv.append at_
  | returned table k =>
    rw [FirstHooks.step, at_]
    exact inv
  | threw e =>
    rw [FirstHooks.step, at_]
    exact inv

theorem start : Inv calls {} where
  threads _ := ⟨nofun, nofun, nofun, nofun, nofun⟩
  apart _ _ _ left := (Option.some_ne_none _ left.symm).elim
  origin _ _ _ listed := absurd listed List.not_mem_nil
  distinct _ _ := List.nodup_nil

theorem run (calls : Fin n → AddHook) (schedule : List (Fin n)) :
    Inv calls (FirstHooks.run calls schedule) :=
  List.foldlRecOn schedule (FirstHooks.step calls) start fun _ inv i _ => inv.step i

end Inv
def stepsLeft : HookThread → Nat
  | .entered => 4
  | .missed .. => 3
  | .attached .. => 2
  | .numbered .. => 1
  | .returned .. => 0
  | .threw _ => 0

theorem finished_of_stepsLeft {a : HookThread} (none : stepsLeft a = 0) : a.finished = true := by
  cases a with
  | entered | missed _ _ | attached _ _ | numbered _ _ _ => cases none
  | returned _ _ | threw _ => rfl

def unnumbered (a : HookThread) : Nat := if a.ticket = none then 1 else 0

variable (calls : Fin n → AddHook)

theorem step_threads (s : FirstHooks n) (i : Fin n) :
    ∃ a, (step calls s i).threads = update s.threads i a ∧
      stepsLeft a ≤ stepsLeft (s.threads i) - 1 ∧
      ∀ table, ((step calls s i).tables table).nextSlotId + unnumbered a ≤
        (s.tables table).nextSlotId + unnumbered (s.threads i) := by
  have stays (done : stepsLeft (s.threads i) = 0) : ∃ a,
      s.threads = update s.threads i a ∧ stepsLeft a ≤ stepsLeft (s.threads i) - 1 ∧
      ∀ table, (s.tables table).nextSlotId + unnumbered a ≤
        (s.tables table).nextSlotId + unnumbered (s.threads i) :=
    ⟨s.threads i, (update_eq_self i s.threads).symm, by omega, fun _ => Nat.le_refl _⟩
  cases at_ : s.threads i with
  | entered =>
    rw [step, at_]
    dsimp only
    split
    · exact ⟨_, rfl, Nat.zero_le _, fun _ => Nat.le_refl _⟩
    · split
      · exact ⟨_, rfl, Nat.le_succ 2, fun _ => Nat.le_refl _⟩
      · exact ⟨_, rfl, Nat.le_refl 3, fun _ => Nat.le_refl _⟩
  | missed fresh fn =>
    rw [step, at_]
    dsimp only
    split
    · exact ⟨_, rfl, Nat.le_refl 2, fun _ => Nat.le_refl _⟩
    · exact ⟨_, rfl, Nat.le_refl 2, fun _ => Nat.le_refl _⟩
  | attached table fn =>
    rw [step, at_]
    refine ⟨_, rfl, Nat.le_refl 1, fun t => ?_⟩
    exact HookTable.counter_fetchAdd_le s.tables table t
  | numbered table k fn =>
    rw [step, at_]
    refine ⟨_, rfl, Nat.le_refl 0, fun t => Nat.le_of_eq ?_⟩
    exact HookTable.counter_pushBack_at s.tables table t (calls i).expected k fn
  | returned table k =>
    rw [at_] at stays
    rw [step, at_]
    exact stays rfl
  | threw e =>
    rw [at_] at stays
    rw [step, at_]
    exact stays rfl

/-- A thread raises one counter once, so with fewer threads than 2^64 the counters are
    those of the source. -/
theorem counter_le (schedule : List (Fin n)) (table : Nat) :
    ((run calls schedule).tables table).nextSlotId ≤ n + 1 := by
  have bound : ((run calls schedule).tables table).nextSlotId +
      ∑ j, unnumbered ((run calls schedule).threads j) ≤ n + 1 := by
    apply List.foldlRecOn (motive := fun s : FirstHooks n =>
      (s.tables table).nextSlotId + ∑ j, unnumbered (s.threads j) ≤ n + 1) schedule (step calls)
    · simp [unnumbered, HookThread.ticket, Nat.add_comm]
    · intro s before i _
      obtain ⟨a, moved, -, raised⟩ := step_threads calls s i
      have rest : ∑ j ∈ Finset.univ.erase i, unnumbered ((step calls s i).threads j) =
          ∑ j ∈ Finset.univ.erase i, unnumbered (s.threads j) := by
        refine Finset.sum_congr rfl fun j other => ?_
        rw [moved, update_of_ne (Finset.ne_of_mem_erase other)]
      have left := Finset.add_sum_erase Finset.univ (fun j => unnumbered (s.threads j))
        (Finset.mem_univ i)
      have right := Finset.add_sum_erase Finset.univ
        (fun j => unnumbered ((step calls s i).threads j)) (Finset.mem_univ i)
      have own : unnumbered ((step calls s i).threads i) = unnumbered a := by
        rw [moved, update_self]
      have here := raised table
      omega
  omega

theorem stepsLeft_foldl (schedule : List (Fin n)) (s : FirstHooks n) (j : Fin n) :
    stepsLeft ((schedule.foldl (step calls) s).threads j) ≤
      stepsLeft (s.threads j) - schedule.count j := by
  induction schedule generalizing s with
  | nil => exact Nat.le_refl _
  | cons i rest ih =>
    obtain ⟨a, moved, less, -⟩ := step_threads calls s i
    have later := ih (step calls s i)
    rw [moved] at later
    rw [List.foldl_cons]
    rcases eq_or_ne j i with rfl | other
    · rw [update_self] at later
      rw [List.count_cons_self]
      omega
    · rw [update_of_ne other] at later
      rw [List.count_cons_of_ne other.symm]
      exact later

theorem finished_of_count {schedule : List (Fin n)} {i : Fin n} (turns : 4 ≤ schedule.count i) :
    ((run calls schedule).threads i).finished = true := by
  apply finished_of_stepsLeft
  have left := stepsLeft_foldl calls schedule {} i
  change stepsLeft ((run calls schedule).threads i) ≤ 4 - schedule.count i at left
  omega

namespace Inv
variable {calls : Fin n → AddHook} {s : FirstHooks n}

theorem slot_once (inv : Inv calls s) {i : Fin n} {table k : Nat} {fn : HookFn}
    (done : s.threads i = .returned table k) (passed : (calls i).check = .ok fn) (phase : HookPhase) :
    ((s.tables table).hooks phase).filter (fun e => e.slotId = k) =
      if phase = (calls i).expected then [⟨k, fn⟩] else [] := by
  have numbered : (s.threads i).ticket = some (table, k) := by
    rw [done]
    rfl
  split
  · rename_i here
    subst here
    obtain ⟨fn', passed', listed⟩ := (inv.threads i).stored table k done
    cases passed.symm.trans passed'
    exact filter_slotId (inv.distinct table _) listed
  · rename_i elsewhere
    rw [List.filter_eq_nil_iff]
    intro e listed same
    obtain ⟨j, returned, expected⟩ := inv.origin table phase e listed
    have ticket : (s.threads j).ticket = some (table, k) := by
      rw [returned, ← of_decide_eq_true same]
      rfl
    cases inv.apart i j _ numbered ticket
    exact elsewhere expected.symm

end Inv

/-- Every call appends to the table that one of them installed, and none waits for
    another; when all are over, each hook that was not refused is in that table
    once, the table holds no others, and their numbers differ. -/
theorem concurrent_first_hooks_kept (calls : Fin n → AddHook) (schedule : List (Fin n)) :
    (∀ i table, ((run calls schedule).threads i).table = some table →
        (run calls schedule).hookTable = some table) ∧
      (∀ i, 4 ≤ schedule.count i → ((run calls schedule).threads i).finished = true) ∧
      ((∀ i, ((run calls schedule).threads i).finished = true) →
        (∀ i fn, (calls i).check = .ok fn →
          ∃ table k, (run calls schedule).threads i = .returned table k ∧
            (run calls schedule).hookTable = some table ∧
            ∀ phase, (((run calls schedule).tables table).hooks phase).filter
                (fun e => e.slotId = k) =
              if phase = (calls i).expected then [⟨k, fn⟩] else []) ∧
        ∀ table, (run calls schedule).hookTable = some table → ∀ phase,
          ((((run calls schedule).tables table).hooks phase).map (·.slotId)).Nodup ∧
          ∀ e ∈ ((run calls schedule).tables table).hooks phase,
            ∃ i, (run calls schedule).threads i = .returned table e.slotId) := by
  have inv := Inv.run calls schedule
  refine ⟨fun i => (inv.threads i).same, fun i => finished_of_count calls, fun done => ⟨?_, ?_⟩⟩
  · intro i fn passed
    have finished := done i
    cases at_ : (run calls schedule).threads i with
    | entered | missed _ _ | attached _ _ | numbered _ _ _ =>
      rw [at_] at finished
      cases finished
    | threw e =>
      have refused := (inv.threads i).refused e at_
      rw [passed] at refused
      cases refused
    | returned table k =>
      refine ⟨table, k, rfl, ?_, inv.slot_once at_ passed⟩
      apply (inv.threads i).same
      rw [at_]
      rfl
  · intro table _ phase
    refine ⟨inv.distinct table phase, fun e listed => ?_⟩
    obtain ⟨i, returned, -⟩ := inv.origin table phase e listed
    exact ⟨i, returned⟩

theorem racing_first_hooks_kept :
    let calls : Fin 2 → AddHook := fun i =>
      ⟨.beforeHandler, .beforeHandler, some (.user i)⟩
    let s := run calls [0, 1, 1, 0, 0, 1, 1, 0]
    s.made = 2 ∧ s.hookTable = some 1 ∧
      (s.tables 1).hooks .beforeHandler = [⟨2, .user 1⟩, ⟨1, .user 0⟩] ∧
      ∃ table k, s.threads 0 = .returned table k ∧ s.hookTable = some table ∧
        ∀ phase, ((s.tables table).hooks phase).filter (fun e => e.slotId = k) =
          if phase = .beforeHandler then [⟨k, .user 0⟩] else [] := by
  intro calls s
  refine ⟨rfl, rfl, rfl, ?_⟩
  refine ((concurrent_first_hooks_kept calls [0, 1, 1, 0, 0, 1, 1, 0]).2.2 ?_).1 0 (.user 0) rfl
  decide

end FirstHooks
end HttpServer
