import HttpServer.DispatchEffects
import HttpServer.Lib.Simulation

/-!
A server beside the same server with other hooks. `Companion` says which
histories of the two count as the same and that user code answers alike after
such histories; the two then go through every part of the request path in step,
and whatever a hook throws is logged on the way. A server is its own companion.
Another one is the server whose pre-handler hooks pass where they would throw,
as long as user code looks neither at the error log nor at the outcome that was
recorded.
-/
namespace HttpServer
open Effect

def preHandlerPhases : List HookPhase := [.requestReceived, .bodyChunk, .beforeHandler]

def Env.withHooks (env : Env) (run : History → HookCall → HookOutcome) : Env :=
  { env with runHook := run }

/-- Where errors are logged, a hook that threw is in the log right behind. -/
def ThrowsLogged (env : Env) (h : History) : Prop :=
  env.config.logError = true → ∀ before call e later, h = before ++ .hook call (.threw e) :: later →
    ∃ answer rest, later = .called (.logError (hookThrewText call e)) answer :: rest

structure Alike (env : Env) (R : History → History → Prop) (s t : Session) : Prop where
  conn : s.conn = t.conn
  history : R s.history t.history
  logged : ThrowsLogged env s.history

/-- Two programs that are in step. -/
def InStep {α : Type} (env : Env) (R : History → History → Prop) (x y : DispatchM α) : Prop :=
  Simulates (Alike env R) (Alike env R) x y

section
variable {env : Env}

theorem ThrowsLogged.append {h new : History} (old : ThrowsLogged env h) (late : ThrowsLogged env new) :
    ThrowsLogged env (h ++ new) := by
  intro configured before call e later whole
  rcases Trace.split_append whole with ⟨rest, front, back⟩ | ⟨mid, -, back⟩
  · obtain ⟨answer, tail, logs⟩ := old configured before call e rest front
    exact ⟨answer, tail ++ new, by rw [back, logs, List.cons_append]⟩
  · exact late configured mid call e later back

theorem throwsLogged_singleton {e : Event} (quiet : ∀ call exc, e ≠ .hook call (.threw exc)) :
    ThrowsLogged env [e] := by
  intro _ before call exc later whole
  have listed : Event.hook call (.threw exc) ∈ [e] := whole ▸ List.mem_append_right _ List.mem_cons_self
  exact absurd (List.mem_singleton.mp listed).symm (quiet call exc)

end

namespace InStep
variable {env : Env} {R : History → History → Prop} {α β : Type} {x y : DispatchM α}

theorem pure (a : α) : InStep env R (pure a) (pure a) := simulates_pure fun _ _ alike => alike

theorem raise (result : Except Exc α) : InStep env R (raise result) (raise result) := by
  cases result with
  | ok a => exact pure a
  | error e => exact simulates_throw fun _ _ alike => alike

theorem bind {f g : α → DispatchM β} (first : InStep env R x y)
    (rest : ∀ a, InStep env R (f a) (g a)) : InStep env R (x >>= f) (y >>= g) :=
  simulates_bind first rest fun _ _ alike => alike

theorem tryCatch {h k : Exc → DispatchM α} (body : InStep env R x y)
    (handler : ∀ e, InStep env R (h e) (k e)) : InStep env R (tryCatch x h) (tryCatch y k) :=
  simulates_tryCatch body handler fun _ _ alike => alike

theorem ite {c : Prop} [Decidable c] {x' y' : DispatchM α} (yes : InStep env R x y)
    (no : InStep env R x' y') : InStep env R (if c then x else x') (if c then y else y') := by
  split
  · exact yes
  · exact no

theorem getConn : InStep env R getConn getConn :=
  fun _ _ alike => ⟨congrArg Except.ok alike.conn, alike⟩

theorem setConn (f : Conn → Conn) : InStep env R (setConn f) (setConn f) :=
  simulates_modify fun _ _ alike => ⟨congrArg f alike.conn, alike.history, alike.logged⟩

theorem emplace (r : HttpResponse) : InStep env R (emplace r) (emplace r) := setConn _

end InStep

/-- What the firing loops do about a hook that threw. -/
def reportThrow (env : Env) (call : HookCall) (e : Exc) : DispatchM Unit := do
  emit (.hook call (.threw e))
  logDispatchError env (hookThrewText call e)

def settle (env : Env) (call : HookCall) :
    Except Exc (Option HttpResponse) → DispatchM (Option HttpResponse)
  | .ok action => do
    emit (.hook call (.ofAction (.ok action)))
    pure action
  | .error e => do
    reportThrow env call e
    pure none

section
variable {env : Env}

theorem hookTurn_eq (call : HookCall) :
    (tryCatch (hookAction env call) fun e => do
      logDispatchError env (hookThrewText call e)
      pure none) = attempt (actionBody env call) >>= settle env call := by
  funext s
  have run : hookAction env call s = (do
      emit (.hook call (.ofAction (outcome (actionBody env call) s)))
      raise (outcome (actionBody env call) s)) (after (actionBody env call) s) := rfl
  have turn : (attempt (actionBody env call) >>= settle env call) s =
    settle env call (outcome (actionBody env call) s) (after (actionBody env call) s) := rfl
  rw [tryCatch_apply, run, turn]
  cases outcome (actionBody env call) s with
  | ok action => rfl
  | error e => rfl

def observed (env : Env) (call : HookCall) : Option Exc → DispatchM Unit
  | none => emit (.hook call .pass)
  | some e => reportThrow env call e

theorem observed_eq (call : HookCall) :
    (tryCatch (observeHook env call) fun e => logDispatchError env (hookThrewText call e)) =
      get >>= fun s => observed env call (observation env s.history call) := by
  funext s
  have read {β : Type} (f : Session → DispatchM β) : (get >>= f) s = f s s := rfl
  rw [tryCatch_apply, observeHook, read, read]
  cases observation env s.history call with
  | none => rfl
  | some e => rfl

def logEntries (env : Env) (h : History) (msg : Str) : History :=
  if env.config.logError then [.called (.logError msg) (env.answer h (.logError msg))] else []

theorem logDispatchError_run (env : Env) (msg : Str) (s : Session) :
    outcome (logDispatchError env msg) s = .ok () ∧ after (logDispatchError env msg) s =
      { s with history := s.history ++ logEntries env s.history msg } := by
  unfold logDispatchError logEntries
  split
  · have run : callUser env (.logError msg) s = raise (env.answer s.history (.logError msg))
      { s with history := s.history ++ [.called (.logError msg) (env.answer s.history (.logError msg))] } :=
      rfl
    unfold outcome after
    rw [tryCatch_apply, run]
    cases env.answer s.history (.logError msg) with
    | ok a => exact ⟨rfl, rfl⟩
    | error e => exact ⟨rfl, rfl⟩
  · exact ⟨rfl, by rw [List.append_nil]; rfl⟩

/-- The report on a hook that threw. -/
def report (env : Env) (h : History) (call : HookCall) (e : Exc) : History :=
  .hook call (.threw e) :: logEntries env (h ++ [.hook call (.threw e)]) (hookThrewText call e)

theorem reportThrow_run (env : Env) (call : HookCall) (e : Exc) (s : Session) :
    outcome (reportThrow env call e) s = .ok () ∧ after (reportThrow env call e) s =
      { s with history := s.history ++ report env s.history call e } := by
  let left : Session := { s with history := s.history ++ [.hook call (.threw e)] }
  obtain ⟨returned, state⟩ := logDispatchError_run env (hookThrewText call e) left
  refine ⟨returned, state.trans ?_⟩
  rw [List.append_assoc]
  rfl

theorem throwsLogged_report (h : History) (call : HookCall) (e : Exc) :
    ThrowsLogged env (report env h call e) := by
  intro configured before call' e' later whole
  unfold report logEntries at whole
  rw [if_pos configured] at whole
  rcases List.cons_eq_append_iff.mp whole with ⟨rfl, first⟩ | ⟨mid, rfl, rest⟩
  · injection first with head tail
    injection head with same threw
    injection threw with same'
    rw [tail, same, same']
    exact ⟨_, _, rfl⟩
  · exact throwsLogged_singleton (fun _ _ => Event.noConfusion) configured mid call' e' later rest

/-- What a user's hook of a pre-handler phase does. -/
theorem actionBody_user (env : Env) {call : HookCall} {n : Nat} (fn : call.fn = .user n)
    (early : call.ctx.phase ∈ preHandlerPhases) (s : Session) :
    outcome (actionBody env call) s = (env.runHook s.history call).action ∧
      after (actionBody env call) s = s := by
  have run : actionBody env call s = raise (env.runHook s.history call).action s := by
    unfold actionBody
    rw [fn]
    dsimp only
    unfold userAction editInPlace
    cases ctx : call.ctx with
    | afterHandler r =>
      rw [ctx] at early
      exact absurd early (show HookPhase.afterHandler ∉ preHandlerPhases by decide)
    | requestReceived | bodyChunk | routeResolved | beforeHandler | handlerException
    | responseSent | requestCompleted => rfl
  unfold outcome after
  rw [run]
  cases (env.runHook s.history call).action with
  | ok action => exact ⟨rfl, rfl⟩
  | error e => exact ⟨rfl, rfl⟩

end

/-- `run` in place of the hooks. What it does is the same, or it passes where a hook
    of a pre-handler phase throws. -/
structure Companion (env : Env) (run : History → HookCall → HookOutcome)
    (R : History → History → Prop) : Prop where
  event : ∀ {h h'} e, R h h' → R (h ++ [e]) (h' ++ [e])
  hooks : ∀ {h h'}, R h h' → env.hooksAt h = env.hooksAt h'
  allowed : ∀ {h h'}, R h h' → env.allowedAt h = env.allowedAt h'
  edits : ∀ {h h'}, R h h' → env.editResponse h = env.editResponse h'
  observes : ∀ {h h'}, R h h' → env.observe h = env.observe h'
  answers : ∀ {h h'}, R h h' → env.answer h = env.answer h'
  runs : ∀ {h h'} call, R h h' → env.runHook h call = run h' call ∨
    call.ctx.phase ∈ preHandlerPhases ∧ ∃ e, env.runHook h call = .threw e ∧ run h' call = .pass ∧
      R (h ++ report env h call e) (h' ++ [.hook call .pass])

/-- In step with itself under the other hooks. -/
def Abreast {α : Type} (env : Env) (run : History → HookCall → HookOutcome)
    (R : History → History → Prop) (x : Env → DispatchM α) : Prop :=
  InStep env R (x env) (x (env.withHooks run))

namespace Companion
variable {env : Env} {run : History → HookCall → HookOutcome} {R : History → History → Prop}
  (both : Companion env run R)
include both

theorem append {s t : Session} (alike : Alike env R s t) {e : Event}
    (quiet : ∀ call exc, e ≠ .hook call (.threw exc)) :
    Alike env R { s with history := s.history ++ [e] } { t with history := t.history ++ [e] } :=
  ⟨alike.conn, both.event e alike.history, alike.logged.append (throwsLogged_singleton quiet)⟩

theorem emit {e : Event} (quiet : ∀ call exc, e ≠ .hook call (.threw exc)) :
    InStep env R (emit e) (emit e) :=
  simulates_modify fun _ _ alike => both.append alike quiet

theorem readHooks : Abreast env run R readHooks :=
  fun _ _ alike => ⟨congrArg Except.ok (both.hooks alike.history),
    both.append alike fun _ _ => Event.noConfusion⟩

theorem readAllowed (resource : Handler) : Abreast env run R (readAllowed · resource) := by
  intro s t alike
  have same := congrFun (both.allowed alike.history) resource
  exact ⟨congrArg (fun a : AllowedMethods => Except.ok a.mask) same,
    both.append alike fun _ _ => Event.noConfusion⟩

theorem callUser (call : UserCall) : Abreast env run R (callUser · call) := by
  intro s t alike
  have same : env.answer s.history call = (env.withHooks run).answer t.history call :=
    congrFun (both.answers alike.history) call
  have written := both.append alike (e := .called call (env.answer s.history call))
    fun _ _ => Event.noConfusion
  have raised := InStep.raise (env.answer s.history call) _ _ written
  unfold HttpServer.callUser
  rw [outcome_get_bind, outcome_get_bind, after_get_bind, after_get_bind, ← same]
  exact raised

theorem logDispatchError (msg : Str) : Abreast env run R (logDispatchError · msg) :=
  .ite (.tryCatch (both.callUser _) fun _ => .pure _) (.pure _)

theorem askAuth (req : Request) : Abreast env run R (askAuth · req) :=
  .tryCatch (.bind (both.callUser _) fun _ => .pure _) fun _ =>
    .bind (both.logDispatchError _) fun _ => .pure _

variable (call : HookCall)

theorem authAlias : Abreast env run R (authAlias · call) := by
  unfold HttpServer.authAlias
  cases call.request with
  | none => exact .pure _
  | some req =>
    refine .ite (.pure _) (.bind (both.askAuth req) fun verdict => ?_)
    cases verdict with
    | none => exact .pure _
    | some rejection => exact .pure _

theorem methodNotAllowedAlias : Abreast env run R (methodNotAllowedAlias · call) := by
  unfold HttpServer.methodNotAllowedAlias Abreast
  split
  · refine .bind (both.readAllowed _) fun allowed => .ite (.pure _) ?_
    exact .bind (both.callUser _) fun _ => .bind (.raise _) fun _ => .pure _
  · exact .pure _

/-- The hook is no user's, or the other one does the same. -/
def Agrees (env : Env) (run : History → HookCall → HookOutcome) (call : HookCall) (s t : Session) :
    Prop :=
  ∀ n, call.fn = .user n → env.runHook s.history call = run t.history call

theorem actionBody :
    Simulates (fun s t => Alike env R s t ∧ Agrees env run call s t) (Alike env R)
      (actionBody env call) (actionBody (env.withHooks run) call) := by
  unfold HttpServer.actionBody
  cases fn : call.fn with
  | authAlias => exact simulates_pre (both.authAlias call) fun _ _ start => start.1
  | methodNotAllowedAlias =>
    exact simulates_pre (both.methodNotAllowedAlias call) fun _ _ start => start.1
  | notFoundAlias => exact simulates_pure fun _ _ start => start.1
  | user n =>
    rintro s t ⟨alike, agrees⟩
    have edits : env.editResponse s.history = (env.withHooks run).editResponse t.history :=
      both.edits alike.history
    have actions : InStep env R (do
        editInPlace env s.history call
        raise (env.runHook s.history call).action) (do
        editInPlace (env.withHooks run) t.history call
        raise (run t.history call).action) := by
      rw [agrees n fn]
      refine .bind ?_ fun _ => .raise _
      unfold editInPlace
      rw [edits]
      split
      · exact .emplace _
      · exact .pure _
    exact actions s t alike

theorem report {h h' : History} (same : R h h') (call : HookCall) (e : Exc) :
    R (h ++ report env h call e) (h' ++ report env h' call e) := by
  have first := both.event (.hook call (.threw e)) same
  unfold HttpServer.report logEntries
  split
  · rw [both.answers first]
    simpa using both.event (.called _ _) first
  · exact first

theorem reportThrow (e : Exc) : Abreast env run R (reportThrow · call e) := by
  intro s t alike
  obtain ⟨left, leftState⟩ := reportThrow_run env call e s
  obtain ⟨right, rightState⟩ := reportThrow_run (env.withHooks run) call e t
  rw [left, right, leftState, rightState]
  exact ⟨rfl, alike.conn, both.report alike.history call e,
    alike.logged.append (throwsLogged_report _ call e)⟩

theorem settle (result : Except Exc (Option HttpResponse)) :
    Abreast env run R (settle · call result) := by
  cases result with
  | ok action =>
    refine .bind (both.emit fun _ exc same => ?_) fun _ => .pure _
    cases action with
    | none => cases same
    | some r => cases same
  | error e => exact .bind (both.reportThrow call e) fun _ => .pure _

/-- One turn of a chain. Where the hook throws and the other one passes, the exception
    is reported on the one side only. -/
theorem hookTurn :
    Abreast env run R fun env => (tryCatch (hookAction env call) fun e => do
      HttpServer.logDispatchError env (hookThrewText call e)
      pure none) := by
  unfold Abreast
  dsimp only
  rw [hookTurn_eq, hookTurn_eq]
  intro s t alike
  by_cases agrees : Agrees env run call s t
  · exact simulates_bind (simulates_attempt (both.actionBody call)) (both.settle call)
      (fun _ _ alike => alike) s t ⟨alike, agrees⟩
  · unfold Agrees at agrees
    push Not at agrees
    obtain ⟨n, fn, differ⟩ := agrees
    obtain ⟨early, e, threw, passed, forgiven⟩ := (both.runs call alike.history).resolve_left differ
    have other : (env.withHooks run).runHook t.history call = .pass := passed
    obtain ⟨raised, left⟩ := actionBody_user env fn early s
    obtain ⟨returned, right⟩ := actionBody_user (env.withHooks run) fn early t
    obtain ⟨reported, written⟩ := reportThrow_run env call e s
    obtain ⟨settled, state⟩ := bind_of_ok s
      (f := fun _ => (pure none : DispatchM (Option HttpResponse))) reported
    rw [outcome_attempt_bind, outcome_attempt_bind, after_attempt_bind, after_attempt_bind, raised,
      returned, left, right, threw, other]
    refine ⟨settled, ?_⟩
    change Alike env R (after (HttpServer.settle env call (.error e)) s) _
    rw [show after (HttpServer.settle env call (.error e)) s = _ from state.trans written]
    exact ⟨alike.conn, forgiven, alike.logged.append (throwsLogged_report _ call e)⟩

theorem fireShortCircuit (scope : HookScope) (ctx : Conn → HookCtx) (fns : List HookFn) :
    Abreast env run R (fireShortCircuit · scope ctx fns) := by
  induction fns with
  | nil => exact .pure none
  | cons fn rest ih =>
    refine .bind .getConn fun conn => .bind (both.hookTurn _) fun action => ?_
    cases action with
    | some r => exact .pure _
    | none => exact ih

theorem observe :
    Abreast env run R fun env => tryCatch (observeHook env call) fun e =>
      HttpServer.logDispatchError env (hookThrewText call e) := by
  unfold Abreast
  dsimp only
  rw [observed_eq, observed_eq]
  intro s t alike
  have same : observation (env.withHooks run) t.history call = observation env s.history call := by
    unfold observation
    rw [both.observes alike.history]
    rfl
  have observes : InStep env R (observed env call (observation env s.history call))
      (observed (env.withHooks run) call (observation (env.withHooks run) t.history call)) := by
    rw [same]
    cases observation env s.history call with
    | none => exact both.emit fun _ _ same => by cases same
    | some e => exact both.reportThrow call e
  exact observes s t alike

theorem fireVoid (scope : HookScope) (ctx : Conn → HookCtx) (fns : List HookFn) :
    Abreast env run R (fireVoid · scope ctx fns) := by
  induction fns with
  | nil => exact .pure _
  | cons fn rest ih => exact .bind .getConn fun _ => .bind (both.observe _) fun _ => ih

theorem serverHooks (phase : HookPhase) : Abreast env run R (serverHooks · phase) :=
  .bind both.readHooks fun _ => .pure _

theorem routeHooks (resource : Handler) (phase : HookPhase) :
    Abreast env run R (routeHooks · resource phase) := .bind both.readHooks fun _ => .pure _

theorem serverGate (phase : HookPhase) : Abreast env run R (serverGate · phase) :=
  .bind both.readHooks fun _ => .pure _

theorem routeGate (resource : Option Handler) (phase : HookPhase) :
    Abreast env run R (routeGate · resource phase) := .bind both.readHooks fun _ => .pure _

theorem fireServer (phase : HookPhase) (ctx : Conn → HookCtx) :
    Abreast env run R (fireServer · phase ctx) :=
  .bind (both.serverHooks phase) fun fns => both.fireShortCircuit _ ctx fns

theorem fireRouteIfSome (resource : Option Handler) (phase : HookPhase) (ctx : Conn → HookCtx) :
    Abreast env run R (fireRouteIfSome · resource phase ctx) := by
  cases resource with
  | none => exact .pure _
  | some res => exact .bind (both.routeHooks res phase) fun fns =>
      both.fireShortCircuit _ ctx fns

theorem fireHandlerException (exception : Exc) (message : Str) :
    Abreast env run R (fireHandlerException · exception message) := by
  refine .bind both.readHooks fun st => .bind (both.fireShortCircuit _ _ _) fun sc => ?_
  cases sc with
  | some r => exact .pure _
  | none =>
    refine .ite (.bind .getConn fun conn => .tryCatch ?_ fun e => ?_) (.pure _)
    · exact .bind (both.callUser _) fun _ => .pure _
    · exact .bind (both.logDispatchError _) fun _ => .pure _

theorem beforeHandlerDescriptor (hrm : Handler) :
    Abreast env run R (beforeHandlerDescriptor · hrm) :=
  .bind .getConn fun _ => .ite (.pure _) (.bind (both.readAllowed hrm) fun _ => .pure _)

theorem fireBeforeHandlerGated (hrm : Handler) : Abreast env run R (fireBeforeHandlerGated · hrm) := by
  refine .bind (both.serverGate _) fun server => .bind (both.routeGate _ _) fun route =>
    .ite (.pure _) (.bind (both.beforeHandlerDescriptor hrm) fun desc =>
      .bind (.ite (both.fireServer _ _) (.pure _)) fun sc => ?_)
  cases sc with
  | some r => exact .bind (.emplace r) fun _ => .pure _
  | none =>
    refine .bind (.ite (both.fireRouteIfSome (some hrm) _ _) (.pure _)) fun sc => ?_
    cases sc with
    | some r => exact .bind (.emplace r) fun _ => .pure _
    | none => exact .pure _

omit both in
theorem emplaceIfSome (sc : Option HttpResponse) :
    InStep env R (emplaceIfSome sc) (emplaceIfSome sc) := by
  cases sc with
  | some r => exact .emplace r
  | none => exact .pure _

theorem fireAfterHandlerGated (resource : Option Handler) :
    Abreast env run R (fireAfterHandlerGated · resource) :=
  .bind (both.serverGate _) fun _ => .bind (both.routeGate _ _) fun _ =>
    .bind .getConn fun _ => .ite (.pure _) <|
      .bind (.ite (both.fireServer _ _) (.pure _)) fun sc => .bind (emplaceIfSome sc) fun _ =>
        .bind (.ite (both.fireRouteIfSome _ _ _) (.pure _)) emplaceIfSome

theorem fireRouteVoid (gate : Bool) (resource : Option Handler) (phase : HookPhase)
    (ctx : HookCtx) : Abreast env run R (fireRouteVoid · gate resource phase ctx) := by
  cases gate with
  | false => exact .pure _
  | true =>
    cases resource with
    | none => exact .pure _
    | some res => exact .bind (both.routeHooks res phase) fun fns => both.fireVoid _ _ fns

theorem fireResponseSent (ctx : HookCtx) : Abreast env run R (fireResponseSent · ctx) := by
  refine .bind both.readHooks fun st => .bind (both.fireVoid _ _ _) fun _ => .ite ?_ (.pure _)
  exact .bind .getConn fun _ => .tryCatch (both.callUser _) fun _ => both.logDispatchError _

theorem fireResponseSentGated (resource : Option Handler) :
    Abreast env run R (fireResponseSentGated · resource) := by
  refine .bind both.readHooks fun st => .bind (both.routeGate _ _) fun route =>
    .bind .getConn fun conn => ?_
  cases conn.response with
  | none => exact .pure _
  | some r => exact .ite (.bind (both.fireResponseSent _) fun _ =>
      both.fireRouteVoid _ _ _ _) (.pure _)

theorem fireRouteResolvedGated (hrm : Option Handler) :
    Abreast env run R (fireRouteResolvedGated · hrm) := by
  refine .bind (both.serverGate _) fun _ => .ite (.bind ?_ fun desc =>
    .bind (both.serverHooks _) fun fns => both.fireVoid _ _ fns) (.pure _)
  cases hrm with
  | none => exact .pure _
  | some res => exact .bind .getConn fun _ => .bind (both.readAllowed res) fun _ => .pure _

theorem notFoundPage : Abreast env run R notFoundPage :=
  .bind .getConn fun _ => .ite (both.callUser _) (.pure _)

theorem errorPage (msg : Str) : Abreast env run R (runInternalErrorHandlerSafely · msg) :=
  .tryCatch (.bind .getConn fun _ => .ite (both.callUser _) (.ite (.pure _) (.pure _))) fun _ =>
    .bind (both.logDispatchError _) fun _ => .pure _

omit both in
theorem materializeResponse : Abreast env run R materializeResponse := .bind .getConn fun _ => .pure _

omit both in
theorem emplaceAndMaterialize (r : HttpResponse) : Abreast env run R (emplaceAndMaterialize · r) :=
  .bind (.emplace r) fun _ => materializeResponse

theorem materializeErrorPage (msg : Str) : Abreast env run R (materializeErrorPage · msg) :=
  .tryCatch (.bind (both.errorPage msg) emplaceAndMaterialize) fun _ => .pure _

theorem rawOrForced500 : Abreast env run R rawOrForced500 := by
  refine .bind (.tryCatch (.bind materializeResponse fun raw => .ite (.pure _) ?_) fun e => ?_)
    fun raw => .ite (.pure _) ?_
  · exact .bind (both.errorPage _) emplaceAndMaterialize
  · cases e with
    | invalidArgument what =>
      exact .tryCatch (.bind both.notFoundPage emplaceAndMaterialize) fun _ => .pure _
    | stdException what =>
      exact .bind (both.logDispatchError _) fun _ => both.materializeErrorPage _
    | other => exact .bind (both.logDispatchError _) fun _ => both.materializeErrorPage _
  · exact .bind (both.logDispatchError _) fun _ => emplaceAndMaterialize _

theorem mhdQueue (what : Queued) : Abreast env run R (mhdQueue · what) :=
  .bind (both.emit fun _ _ => Event.noConfusion) fun _ => .pure _

theorem decorateMhdResponse (r : HttpResponse) : Abreast env run R (decorateMhdResponse · r) := by
  refine .bind (both.emit fun _ _ => Event.noConfusion) fun _ => ?_
  dsimp only [Env.withHooks]
  cases r.setCookieLines env.tmLeft with
  | ok lines => exact .pure _
  | error e => exact .raise (.error _)

theorem materializeAndQueueResponse (resource : Option Handler) :
    Abreast env run R (materializeAndQueueResponse · resource) := by
  refine .bind both.rawOrForced500 fun raw => .ite (.bind .getConn fun conn => ?_) (.pure _)
  exact .bind (both.decorateMhdResponse _) fun _ => .bind (both.mhdQueue _) fun _ =>
    .bind (both.fireResponseSentGated resource) fun _ => .pure _

theorem tryWsUpgrade (w : WireRequest) : Abreast env run R (tryWsUpgrade · w) := by
  refine .bind .getConn fun conn => ?_
  have same : upgradeAnswer (env.withHooks run) w = upgradeAnswer env w := rfl
  rw [same]
  cases upgradeAnswer env w conn.standardizedUrl with
  | none => exact .pure _
  | some what => exact .bind (both.mhdQueue what) fun _ => .pure _

theorem resolveResourceForRequest : Abreast env run R resolveResourceForRequest := by
  refine .bind both.readHooks fun st => .bind .getConn fun conn => ?_
  dsimp only [Env.withHooks]
  cases (env.routes.lookupV2 env.rx env.cache conn.methodEnum conn.standardizedUrl).2 with
  | none => exact .pure _
  | some result => exact .bind (.setConn _) fun _ => .pure _

theorem answerException (exception : Exc) : Abreast env run R (answerException · exception) := by
  refine .bind .getConn fun conn => .bind (both.routeGate _ _) fun route =>
    .bind both.readHooks fun st => .ite (.bind ?_ fun sc => .emplace _)
      (.bind (both.errorPage _) .emplace)
  refine .bind (.ite (both.fireHandlerException _ _) (.pure _)) fun sc => ?_
  cases sc with
  | some r => exact .pure _
  | none => exact .ite (both.fireRouteIfSome _ _ _) (.pure _)

theorem renderResource (hrm : Handler) : Abreast env run R (renderResource · hrm) :=
  .bind .getConn fun _ => .bind (both.callUser _) fun r => .bind (.emplace r) fun _ =>
    .ite (.bind (both.errorPage _) .emplace) (.pure _)

theorem refuseMethod (hrm : Handler) : Abreast env run R (refuseMethod · hrm) := by
  refine .bind (.bind .getConn fun _ => .ite (both.callUser _) (.pure _)) fun page => ?_
  exact .bind (.emplace page) fun _ => .bind (both.readAllowed hrm) fun _ =>
    .bind (.raise _) .emplace

theorem dispatchResourceHandler (hrm : Handler) : Abreast env run R (dispatchResourceHandler · hrm) := by
  refine .tryCatch (.bind (.setConn _) fun _ => .bind .getConn fun _ =>
    .bind (both.readAllowed hrm) fun _ => .ite (both.renderResource hrm)
      (both.refuseMethod hrm)) fun e => ?_
  exact .bind (both.logDispatchError _) fun _ =>
    .bind (both.emit fun _ _ => Event.noConfusion) fun _ => both.answerException e

theorem answerFound (hrm : Handler) : Abreast env run R (answerFound · hrm) := by
  refine .bind (.bind both.readHooks fun _ => .setConn _) fun _ =>
    .bind (both.fireRouteResolvedGated _) fun _ =>
      .bind (both.fireBeforeHandlerGated hrm) fun _ =>
        .ite (both.materializeAndQueueResponse _) ?_
  exact .bind (both.dispatchResourceHandler hrm) fun _ =>
    .bind (both.fireAfterHandlerGated _) fun _ => both.materializeAndQueueResponse _

theorem answerMissing : Abreast env run R answerMissing := by
  refine .bind (both.fireRouteResolvedGated _) fun _ => .bind (.bind .getConn fun conn => ?_)
    fun _ => .bind (both.fireAfterHandlerGated _) fun _ => both.materializeAndQueueResponse _
  cases conn.response with
  | some r => exact .pure _
  | none => exact .bind both.notFoundPage .emplace

theorem finalizeAnswer (w : WireRequest) : Abreast env run R (finalizeAnswer · w) := by
  refine .bind (both.tryWsUpgrade w) fun upgraded => ?_
  cases upgraded with
  | some result => exact .pure _
  | none =>
    refine .bind .getConn fun _ => .ite (both.materializeAndQueueResponse _)
      (.bind both.resolveResourceForRequest fun hrm => ?_)
    cases hrm with
    | some hrm => exact both.answerFound hrm
    | none => exact both.answerMissing

theorem firstStep (w : WireRequest) : Abreast env run R (requestsAnswerFirstStep · w) := by
  refine .bind (.setConn _) fun _ => .bind (both.serverGate _) fun _ =>
    .bind (.ite (both.fireServer _ _) (.pure _)) fun sc => ?_
  cases sc with
  | some r => exact .bind (.setConn _) fun _ => .pure _
  | none => exact .bind (.setConn _) fun _ => .pure _

theorem receiveChunk (uploadData : Str) : Abreast env run R (receiveChunk · uploadData) := by
  refine .bind (both.serverGate _) fun _ => .bind (.ite (.bind .getConn fun _ =>
    .bind (.setConn _) fun _ => both.fireServer _ _) (.pure _)) fun sc => ?_
  cases sc with
  | some r => exact .bind (.setConn _) fun _ => .pure _
  | none => exact .bind (.setConn _) fun _ => .pure _

theorem answerToConnection (w : WireRequest) (uploadData : Str) :
    Abreast env run R (answerToConnection · w uploadData) := by
  refine .bind .getConn fun conn => ?_
  cases conn.request with
  | none => exact .bind (.setConn _) fun _ => both.firstStep w
  | some _ =>
    exact .ite (.bind (.setConn _) fun _ => both.finalizeAnswer w)
      (.bind .getConn fun _ => .ite (.pure _) (both.receiveChunk uploadData))

theorem deliver (w : WireRequest) (chunks : List Str) : Abreast env run R (deliver · w chunks) := by
  induction chunks with
  | nil => exact .pure _
  | cons chunk rest ih => exact .bind (both.answerToConnection w chunk) fun _ => ih

theorem serve (w : WireRequest) : Abreast env run R (serve · w) :=
  .bind (.bind (both.answerToConnection w []) fun _ => both.deliver w w.chunks) fun _ =>
    both.answerToConnection w []

end Companion

theorem Companion.self (env : Env) : Companion env env.runHook Eq where
  event e same := congrArg (· ++ [e]) same
  hooks same := congrArg env.hooksAt same
  allowed same := congrArg env.allowedAt same
  edits same := congrArg env.editResponse same
  observes same := congrArg env.observe same
  answers same := congrArg env.answer same
  runs call same := Or.inl (congrArg (env.runHook · call) same)

def HookOutcome.forgiven : HookOutcome → HookOutcome
  | .threw _ => .pass
  | outcome => outcome

def Env.forgiving (env : Env) (h : History) (call : HookCall) : HookOutcome :=
  if call.ctx.phase ∈ preHandlerPhases then (env.runHook h call).forgiven else env.runHook h call

/-- The same server, with hooks of the pre-handler phases that pass instead of throwing. -/
def Env.lenient (env : Env) : Env := env.withHooks env.forgiving

/-- What is left of an event without the error log, and with a pre-handler hook that
    threw taken for one that passed. -/
def Event.plain : Event → Option Event
  | .hook call outcome =>
    some (.hook call (if call.ctx.phase ∈ preHandlerPhases then outcome.forgiven else outcome))
  | .called (.logError _) _ => none
  | e => some e

def plain (h : History) : History := h.filterMap Event.plain

/-- User code and the tables are the same after histories that are plainly the same. -/
structure Oblivious (env : Env) : Prop where
  hooks : ∀ h h', plain h = plain h' → env.hooksAt h = env.hooksAt h'
  allowed : ∀ h h', plain h = plain h' → env.allowedAt h = env.allowedAt h'
  runs : ∀ h h', plain h = plain h' → env.runHook h = env.runHook h'
  edits : ∀ h h', plain h = plain h' → env.editResponse h = env.editResponse h'
  observes : ∀ h h', plain h = plain h' → env.observe h = env.observe h'
  answers : ∀ h h', plain h = plain h' → env.answer h = env.answer h'

theorem plain_append (h new : History) : plain (h ++ new) = plain h ++ plain new :=
  List.filterMap_append

theorem plain_report (env : Env) (h : History) {call : HookCall} (e : Exc)
    (early : call.ctx.phase ∈ preHandlerPhases) :
    plain (report env h call e) = plain [.hook call .pass] := by
  unfold report logEntries
  split <;> simp [plain, Event.plain, early, HookOutcome.forgiven]

theorem Oblivious.companion {env : Env} (oblivious : Oblivious env) :
    Companion env env.forgiving fun h h' => plain h = plain h' where
  event e same := by rw [plain_append, plain_append, same]
  hooks := oblivious.hooks _ _
  allowed := oblivious.allowed _ _
  edits := oblivious.edits _ _
  observes := oblivious.observes _ _
  answers := oblivious.answers _ _
  runs {h h'} call same := by
    unfold Env.forgiving
    rw [← oblivious.runs h h' same]
    by_cases early : call.ctx.phase ∈ preHandlerPhases
    · rw [if_pos early]
      cases run : env.runHook h call with
      | pass => exact Or.inl rfl
      | respond r => exact Or.inl rfl
      | threw e =>
        refine Or.inr ⟨early, e, rfl, rfl, ?_⟩
        rw [plain_append, plain_append, same, plain_report env h e early]
    · exact Or.inl (if_neg early).symm

end HttpServer
