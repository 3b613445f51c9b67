import HttpServer.Lib.Effect
import HttpServer.Lib.Run
import HttpServer.Text
import Mathlib.Data.List.Perm.Basic

/-!
The daemon of a webserver: `start(false)`, `stop` and the destructor over the
published handle and the running flag. `start` stores whatever
`MHD_start_daemon` returned and does not look at what was stored before, so the
handle of a daemon that still runs can be overwritten.
-/
namespace HttpServer
open Effect

inductive StartMethod where
  | internalSelect | threadPerConnection
  deriving DecidableEq, Repr

structure StartConfig where
  port : Nat
  startMethod : StartMethod := .internalSelect
  maxThreads : Nat := 0
  maxThreadStackSize : Nat := 0
  bindSocket : Bool := false
  deriving DecidableEq, Repr

inductive StartError where
  | threadLimits
  | unableToConnect (port : Nat)
  deriving DecidableEq, Repr

def StartError.message : StartError → Str
  | .threadLimits =>
    "Cannot specify maximum number of threads when using a thread per connection".toList
  | .unableToConnect port => "Unable to connect daemon to port: ".toList ++ (toString port).toList

inductive DaemonCall (δ : Type) where
  | startDaemon (result : Option δ)
  | stopDaemon (handle : Option δ)
  | shutdownSocket
  deriving DecidableEq, Repr

structure DaemonLifecycle (δ : Type) where
  daemon : Option δ := none
  running : Bool := false
  calls : List (DaemonCall δ) := []
  deriving DecidableEq, Repr

inductive DaemonOp (δ : Type) where
  | start (result : Option δ)
  | stop
  deriving DecidableEq, Repr

def StartConfig.refused (config : StartConfig) : Bool :=
  config.startMethod = .threadPerConnection &&
    (config.maxThreads ≠ 0 || config.maxThreadStackSize ≠ 0)

namespace DaemonLifecycle
variable {δ : Type}

/-- `start(false)`, with what `MHD_start_daemon` returns when it is called. -/
def start (config : StartConfig) (result : Option δ) :
    EStateM StartError (DaemonLifecycle δ) Bool := do
  if config.refused then throw .threadLimits
  else do
    modify fun s => { s with daemon := result, calls := s.calls ++ [.startDaemon result] }
    match result with
    | none => throw (.unableToConnect config.port)
    | some _ => do
      modify fun s => { s with running := true }
      pure false

def isRunning (s : DaemonLifecycle δ) : Bool := s.running

def stop (config : StartConfig) : EStateM StartError (DaemonLifecycle δ) Bool := do
  let s ← get
  if !s.running then pure false
  else do
    modify fun s => { s with
      running := false
      daemon := none
      calls := s.calls ++ .stopDaemon s.daemon ::
        (if config.bindSocket then [.shutdownSocket] else []) }
    pure true

/-- One public call; an exception leaves the state as it is by then. -/
def step (config : StartConfig) (s : DaemonLifecycle δ) : DaemonOp δ → DaemonLifecycle δ
  | .start result => after (start config result) s
  | .stop => after (stop config) s

def run (config : StartConfig) (ops : List (DaemonOp δ)) : DaemonLifecycle δ :=
  ops.foldl (step config) {}

def destroy (config : StartConfig) (s : DaemonLifecycle δ) : DaemonLifecycle δ :=
  after (stop config) s

def started (s : DaemonLifecycle δ) : List δ :=
  s.calls.filterMap fun
    | .startDaemon result => result
    | _ => none

def stopped (s : DaemonLifecycle δ) : List δ :=
  s.calls.filterMap fun
    | .stopDaemon handle => handle
    | _ => none

variable [DecidableEq δ]

/-- Every handle was stopped as often as it was returned. libmicrohttpd may
    return the handle of a daemon that is gone again, so handles are counted. -/
def Settled (s : DaemonLifecycle δ) : Prop := ∀ d, s.stopped.count d = s.started.count d

def Unstopped (s : DaemonLifecycle δ) : Prop := ∃ d, s.stopped.count d < s.started.count d

structure NeverOrphaned (config : StartConfig) (ops : List (DaemonOp δ)) : Prop where
  settled_stop : ∀ before, before ++ [.stop] <+: ops → (run config (before ++ [.stop])).Settled
  settled_end : (destroy config (run config ops)).Settled
  never_null : .stopDaemon none ∉ (destroy config (run config ops)).calls
  is_running : ∀ before, before <+: ops →
    ((run config before).isRunning = true ↔ (run config before).Unstopped)

def StartsIdle (config : StartConfig) (s : DaemonLifecycle δ) : DaemonOp δ → Prop
  | .start _ => config.refused = true ∨ s.running = false
  | .stop => True

section
omit [DecidableEq δ]
variable (config : StartConfig) (s : DaemonLifecycle δ)

theorem step_start_refused (result : Option δ) (refused : config.refused = true) :
    step config s (.start result) = s := by
  simp only [step, start, refused]
  rfl

theorem step_start (result : Option δ) (reached : config.refused = false) :
    step config s (.start result) =
      { daemon := result
        running := result.isSome || s.running
        calls := s.calls ++ [.startDaemon result] } := by
  simp only [step, start, reached]
  cases result with
  | none => rfl
  | some d => rfl

theorem destroy_idle (idle : s.running = false) : destroy config s = s := by
  simp only [destroy, stop, after_get_bind, idle]
  rfl

theorem destroy_running (runs : s.running = true) :
    destroy config s =
      { daemon := none
        running := false
        calls := s.calls ++ .stopDaemon s.daemon ::
          (if config.bindSocket then [.shutdownSocket] else []) } := by
  simp only [destroy, stop, after_get_bind, runs]
  rfl

theorem running_destroy : (destroy config s).running = false := by
  cases runs : s.running with
  | false => rw [destroy_idle config s runs, runs]
  | true => rw [destroy_running config s runs]

theorem handles_start (result : Option δ) (reached : config.refused = false) :
    (step config s (.start result)).started = s.started ++ result.toList ∧
      (step config s (.start result)).stopped = s.stopped := by
  rw [step_start config s result reached]
  cases result with
  | none => simp [started, stopped]
  | some d => simp [started, stopped]

theorem handles_destroy (runs : s.running = true) :
    (destroy config s).started = s.started ∧
      (destroy config s).stopped = s.stopped ++ s.daemon.toList := by
  rw [destroy_running config s runs]
  cases published : s.daemon with
  | none => cases bound : config.bindSocket <;> simp [started, stopped]
  | some d => cases bound : config.bindSocket <;> simp [started, stopped]

-- As long as starts find the server idle, the published handle is the one daemon that
-- is not stopped.
structure Tracked (s : DaemonLifecycle δ) : Prop where
  running_iff : s.running = s.daemon.isSome
  balance : s.started.Perm (s.stopped ++ s.daemon.toList)
  never_null : .stopDaemon none ∉ s.calls

theorem tracked_init : Tracked ({} : DaemonLifecycle δ) := ⟨rfl, List.Perm.nil, List.not_mem_nil⟩

variable {config s}

theorem Tracked.start (tracked : Tracked s) (result : Option δ)
    (idle : config.refused = true ∨ s.running = false) :
    Tracked (step config s (.start result)) := by
  cases reached : config.refused with
  | true =>
    rw [step_start_refused config s result reached]
    exact tracked
  | false =>
    have idle : s.running = false := by simpa [reached] using idle
    have empty : s.daemon = none := by
      have := tracked.running_iff
      rw [idle] at this
      simpa using this.symm
    obtain ⟨started, stopped⟩ := handles_start config s result reached
    constructor
    · rw [step_start config s result reached]
      simp [idle]
    · rw [started, stopped, step_start config s result reached]
      have balance := tracked.balance
      rw [empty, Option.toList_none, List.append_nil] at balance
      exact balance.append_right _
    · rw [step_start config s result reached]
      simpa using tracked.never_null

theorem Tracked.destroy (tracked : Tracked s) : Tracked (destroy config s) := by
  cases runs : s.running with
  | false =>
    rw [destroy_idle config s runs]
    exact tracked
  | true =>
    obtain ⟨started, stopped⟩ := handles_destroy config s runs
    have published := tracked.running_iff
    rw [runs] at published
    constructor
    · rw [destroy_running config s runs]
      rfl
    · rw [started, stopped, destroy_running config s runs]
      simpa using tracked.balance
    · obtain ⟨d, held⟩ := Option.isSome_iff_exists.mp published.symm
      rw [destroy_running config s runs, held]
      cases bound : config.bindSocket <;> simpa using tracked.never_null

theorem Tracked.step (tracked : Tracked s) (op : DaemonOp δ) (idle : StartsIdle config s op) :
    Tracked (step config s op) := by
  cases op with
  | start result => exact tracked.start result idle
  | stop => exact tracked.destroy

end

variable {s : DaemonLifecycle δ}

theorem Tracked.settled (tracked : Tracked s) (idle : s.running = false) : s.Settled := by
  intro d
  have empty : s.daemon.toList = [] := by
    have := tracked.running_iff
    rw [idle] at this
    simpa using this.symm
  have balance := tracked.balance.count_eq d
  rw [empty, List.append_nil] at balance
  exact balance.symm

theorem Tracked.running_unstopped (tracked : Tracked s) : s.isRunning = true ↔ s.Unstopped := by
  constructor
  · intro runs
    obtain ⟨d, held⟩ := Option.isSome_iff_exists.mp (tracked.running_iff.symm.trans runs)
    have balance := tracked.balance.count_eq d
    rw [held, List.count_append] at balance
    exact ⟨d, by simp at balance; omega⟩
  · rintro ⟨d, fewer⟩
    by_contra idle
    have settled := tracked.settled (Bool.not_eq_true _ ▸ idle) d
    omega

def Lost (s : DaemonLifecycle δ) : Prop :=
  s.stopped.length + s.daemon.toList.length < s.started.length

section
omit [DecidableEq δ]
variable {config : StartConfig} {s : DaemonLifecycle δ}

theorem Lost.destroy (lost : Lost s) : Lost (destroy config s) := by
  cases runs : s.running with
  | false =>
    rw [destroy_idle config s runs]
    exact lost
  | true =>
    obtain ⟨started, stopped⟩ := handles_destroy config s runs
    unfold Lost at lost ⊢
    rw [started, stopped, destroy_running config s runs, List.length_append]
    simpa using lost

theorem Lost.step (lost : Lost s) (op : DaemonOp δ) : Lost (step config s op) := by
  cases op with
  | stop => exact lost.destroy
  | start result =>
    cases reached : config.refused with
    | true =>
      rw [step_start_refused config s result reached]
      exact lost
    | false =>
      obtain ⟨started, stopped⟩ := handles_start config s result reached
      unfold Lost at lost ⊢
      rw [started, stopped, step_start config s result reached, List.length_append]
      dsimp only
      omega

theorem lost_overwritten (tracked : Tracked s) (result : Option δ)
    (reached : config.refused = false) (runs : s.running = true) :
    Lost (DaemonLifecycle.step config s (.start result)) := by
  obtain ⟨started, stopped⟩ := handles_start config s result reached
  obtain ⟨d, held⟩ := Option.isSome_iff_exists.mp (tracked.running_iff.symm.trans runs)
  have balance := tracked.balance.length_eq
  rw [held, List.length_append, Option.toList_some, List.length_singleton] at balance
  unfold Lost
  rw [started, stopped, step_start config s result reached, List.length_append]
  dsimp only
  omega

end

theorem Lost.not_settled (lost : Lost s) : ¬ s.Settled := by
  intro settled
  have same := (List.perm_iff_count.mpr settled).length_eq
  unfold Lost at lost
  omega

theorem startsIdle_of_settled {config : StartConfig} {ops : List (DaemonOp δ)} (tracked : Tracked s)
    (settled : (destroy config (ops.foldl (step config) s)).Settled) :
    Run.Within (step config) (StartsIdle config) s ops := by
  induction ops generalizing s with
  | nil => trivial
  | cons op ops ih =>
    by_cases idle : StartsIdle config s op
    · exact ⟨idle, ih (tracked.step op idle) settled⟩
    · cases op with
      | stop => exact absurd trivial idle
      | start result =>
        simp only [StartsIdle, not_or, Bool.not_eq_true, Bool.not_eq_false] at idle
        have lost := lost_overwritten tracked result idle.1 idle.2
        have always : Lost (ops.foldl (step config) (step config s (.start result))) :=
          List.foldlRecOn ops _ lost fun _ still op _ => still.step op
        exact absurd settled always.destroy.not_settled

omit [DecidableEq δ] in
theorem tracked_run {config : StartConfig} {ops before : List (DaemonOp δ)}
    (idle : Run.Within (step config) (StartsIdle config) {} ops) (earlier : before <+: ops) :
    Tracked (run config before) := by
  obtain ⟨rest, rfl⟩ := earlier
  exact Run.invariant (fun _ op tracked idle => tracked.step op idle) tracked_init
    (Run.within_append.mp idle).1

/-- No daemon is orphaned exactly when every start that reaches libmicrohttpd is
    made while the server is not running. -/
theorem never_orphaned_iff (config : StartConfig) (ops : List (DaemonOp δ)) :
    NeverOrphaned config ops ↔ Run.Within (step config) (StartsIdle config) {} ops := by
  constructor
  · intro never
    exact startsIdle_of_settled tracked_init never.settled_end
  · intro idle
    have tracked := tracked_run idle (List.prefix_refl ops)
    constructor
    · intro before earlier
      refine (tracked_run idle earlier).settled ?_
      rw [run, List.foldl_append]
      exact running_destroy config _
    · exact tracked.destroy.settled (running_destroy config _)
    · exact tracked.destroy.never_null
    · intro before earlier
      exact (tracked_run idle earlier).running_unstopped

/-- Two starts and a stop leave the first daemon behind, and after a second
    start that fails the stop is given a null handle. -/
theorem second_start_orphans_first :
    ¬ NeverOrphaned ⟨8080, .internalSelect, 0, 0, false⟩ [.start (some 1), .start (some 2), .stop] ∧
      (run ⟨8080, .internalSelect, 0, 0, false⟩
        [.start (some 1), .start (some 2), .stop]).stopped = [2] ∧
      .stopDaemon none ∈ (run ⟨8080, .internalSelect, 0, 0, false⟩
        [.start (some 1), .start none, .stop]).calls := by
  refine ⟨fun never => ?_, by decide, by decide⟩
  have settled := never.settled_end 1
  revert settled
  decide

end DaemonLifecycle
end HttpServer
