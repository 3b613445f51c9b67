import HttpServer.Session

/-!
Firing hooks: the chains of `hook_bus` and `resource_hook_table`, the bodies of
the hooks and slots a server installs for its configured handlers, and the
gates of `hook_dispatcher`. A chain runs over a snapshot of its phase; a hook
that throws is logged and counts as one that passed.
-/
namespace HttpServer
open Effect Slots

/-- `install_default_alias_hooks_`, on the bus of a server under construction. -/
def installDefaultAliasHooks (cfg : WebserverConfig) : HookBus :=
  let push (b : HookBus) (wired : Bool) (phase : HookPhase) (fn : HookFn) : HookBus :=
    if wired then { b with table := b.table.push phase fn } else b
  let b := push HookBus.empty cfg.authHandler .beforeHandler .authAlias
  let b := push b cfg.methodNotAllowedHandler .beforeHandler .methodNotAllowedAlias
  let b := push b cfg.notFoundHandler .routeResolved .notFoundAlias
  let b := if cfg.internalErrorHandler then b.setHandlerExceptionAlias else b
  if cfg.logAccess then b.setLogAccessAlias else b

def HookState.constructed (cfg : WebserverConfig) : HookState where
  bus := installDefaultAliasHooks cfg
  tables _ := SlotTable.empty
  nextTable := 0
  owners := []
  handles _ := {}

def HookState.Reachable (cfg : WebserverConfig) (st : HookState) : Prop :=
  ∃ ops : List HookOp, st = ops.foldl HookState.step (HookState.constructed cfg)

theorem HookState.Reachable.invariant {cfg : WebserverConfig} {I : HookState → Prop}
    (start : I (HookState.constructed cfg)) (step : ∀ st op, I st → I (st.step op))
    {st : HookState} (reachable : HookState.Reachable cfg st) : I st := by
  obtain ⟨ops, rfl⟩ := reachable
  exact List.foldlRecOn ops HookState.step start fun st holds op _ => step st op holds

/-- `format_allow_header`. -/
def formatAllowHeader (allowed : MethodSet) : Str :=
  [',', ' '].intercalate ((allMethods.filter allowed.contains).map HttpMethod.wireToken)

section
variable (env : Env)

def authThrewText : Exc → Str
  | .other => "auth_handler threw unknown exception; ".toList ++ "failing closed with 500".toList
  | e => "auth_handler threw: ".toList ++ e.message ++ "; failing closed with 500".toList

/-- The verdict of `auth_handler`; `none` stands for `auth_threw`. -/
def askAuth (req : Request) : DispatchM (Option (Option HttpResponse)) :=
  tryCatch (do
    let rejection ← callUser env (.authHandler req)
    pure (some rejection)) fun e => do
      logDispatchError env (authThrewText e)
      pure none

def authAlias (call : HookCall) : DispatchM (Option HttpResponse) :=
  match call.request with
  | none => pure none
  | some req =>
    if env.config.authSkipPathsNormalized ≠ [] ∧
        shouldSkipAuth env.config.authSkipPathsNormalized req.path = true then pure none
    else do
      let verdict ← askAuth env req
      match verdict with
      | none => pure (some HttpResponse.empty500)
      | some rejection => pure rejection

def addAllow (resp : HttpResponse) (allowValue : Str) : Except Exc HttpResponse :=
  if allowValue = [] then .ok resp else resp.withHeader "Allow".toList allowValue

def methodNotAllowedAlias (call : HookCall) : DispatchM (Option HttpResponse) :=
  match call.ctx with
  | .beforeHandler matched method (some resource) => do
    let allowed ← readAllowed env resource
    if allowed.contains method then pure none
    else do
      let resp ← callUser env (.methodNotAllowedHandler .hookAlias (call.request.getD {}))
      let resp ← raise (match matched with
        | some route => addAllow resp (formatAllowHeader route.methods)
        | none => .ok resp)
      pure (some resp)
  | _ => pure none

def HookOutcome.action : HookOutcome → Except Exc (Option HttpResponse)
  | .pass => .ok none
  | .respond r => .ok (some r)
  | .threw e => .error e

def HookOutcome.ofAction : Except Exc (Option HttpResponse) → HookOutcome
  | .ok none => .pass
  | .ok (some r) => .respond r
  | .error e => .threw e

/-- An `after_handler` hook holds a pointer to the response and may change it,
    whether it then passes, responds or throws. -/
def editInPlace (history : History) (call : HookCall) : DispatchM Unit :=
  match call.ctx with
  | .afterHandler r => emplace (env.editResponse history call r)
  | _ => pure ()

def userAction (call : HookCall) : DispatchM (Option HttpResponse) := do
  let s ← get
  editInPlace env s.history call
  raise (env.runHook s.history call).action

def actionBody (call : HookCall) : DispatchM (Option HttpResponse) :=
  match call.fn with
  | .authAlias => authAlias env call
  | .methodNotAllowedAlias => methodNotAllowedAlias env call
  | .notFoundAlias => pure none
  | .user _ => userAction env call

/-- `entry.fn(ctx)` for a hook that returns a `hook_action`. -/
def hookAction (call : HookCall) : DispatchM (Option HttpResponse) := do
  let result ← attempt (actionBody env call)
  emit (.hook call (HookOutcome.ofAction result))
  raise result

def observation (history : History) (call : HookCall) : Option Exc :=
  match call.fn with
  | .user _ => env.observe history call
  | _ => none

/-- `entry.fn(ctx)` for a hook that returns nothing. -/
def observeHook (call : HookCall) : DispatchM Unit := do
  let s ← get
  match observation env s.history call with
  | none => emit (.hook call .pass)
  | some e => do
    emit (.hook call (.threw e))
    throw e

def hookThrewText (call : HookCall) (e : Exc) : Str :=
  let lead := match call.scope with
    | .server => "hook[".toList
    | .route => "per-route hook[".toList
  lead ++ call.ctx.phase.name ++ (match e with
    | .other => "] threw unknown exception".toList
    | e => "] threw: ".toList ++ e.message)

/-- `fire_short_circuit_hooks_for_phase` and `fire_short_circuit_impl`, on the
    snapshot. The context is built from the connection each time because an
    `after_handler` hook sees what the ones before it made of the response. -/
def fireShortCircuit (scope : HookScope) (ctx : Conn → HookCtx) :
    List HookFn → DispatchM (Option HttpResponse)
  | [] => pure none
  | fn :: rest => do
    let conn ← getConn
    let call : HookCall := ⟨scope, fn, conn.request, ctx conn⟩
    let action ← tryCatch (hookAction env call) fun e => do
      logDispatchError env (hookThrewText call e)
      pure none
    match action with
    | some r => pure (some r)
    | none => fireShortCircuit scope ctx rest

/-- `fire_hooks_for_phase` and `fire_void_impl`. -/
def fireVoid (scope : HookScope) (ctx : Conn → HookCtx) : List HookFn → DispatchM Unit
  | [] => pure ()
  | fn :: rest => do
    let conn ← getConn
    let call : HookCall := ⟨scope, fn, conn.request, ctx conn⟩
    tryCatch (observeHook env call) fun e => logDispatchError env (hookThrewText call e)
    fireVoid scope ctx rest

def serverHooks (phase : HookPhase) : DispatchM (List HookFn) := do
  let st ← readHooks env
  pure ((st.bus.table.hooks phase).map (·.fn))

def routeHooks (resource : Handler) (phase : HookPhase) : DispatchM (List HookFn) := do
  let st ← readHooks env
  pure (((st.hookTableRaw resource).map fun t => (t.hooks phase).map (·.fn)).getD [])

def serverGate (phase : HookPhase) : DispatchM Bool := do
  let st ← readHooks env
  pure (st.bus.hasHooksFor phase)

def routeGate (resource : Option Handler) (phase : HookPhase) : DispatchM Bool := do
  let st ← readHooks env
  pure (((resource.bind st.hookTableRaw).map fun t => t.gate phase).getD false)

def fireServer (phase : HookPhase) (ctx : Conn → HookCtx) : DispatchM (Option HttpResponse) := do
  let fns ← serverHooks env phase
  fireShortCircuit env .server ctx fns

def fireRoute (resource : Handler) (phase : HookPhase) (ctx : Conn → HookCtx) :
    DispatchM (Option HttpResponse) := do
  let fns ← routeHooks env resource phase
  fireShortCircuit env .route ctx fns

def internalErrorThrewText : Exc → Str
  | .other => "internal_error_handler threw unknown exception".toList
  | e => "internal_error_handler threw: ".toList ++ e.message

def fireHandlerExceptionAlias (message : Str) : DispatchM (Option HttpResponse) := do
  let conn ← getConn
  tryCatch (do
    let r ← callUser env (.internalErrorHandler .hookAlias conn.req message)
    pure (some r)) fun e => do
      logDispatchError env (internalErrorThrewText e)
      pure none

def fireHandlerException (exception : Exc) (message : Str) :
    DispatchM (Option HttpResponse) := do
  let st ← readHooks env
  let sc ← fireShortCircuit env .server (fun _ => .handlerException exception message)
    ((st.bus.table.hooks .handlerException).map (·.fn))
  match sc with
  | some r => pure (some r)
  | none =>
    if st.bus.handlerExceptionAlias then fireHandlerExceptionAlias env message else pure none

/-- `append_sanitized`. -/
def sanitized (s : Str) : Str :=
  s.map fun c => if c.toNat < 0x20 ∨ c.toNat = 0x7f then '-' else c

def logAccessThrewText : Exc → Str
  | .other => "log_access alias threw unknown exception".toList
  | e => "log_access alias threw: ".toList ++ e.message

def fireLogAccessAlias : DispatchM Unit := do
  let conn ← getConn
  tryCatch (callUser env (.logAccess
    (sanitized conn.req.path ++ " METHOD: ".toList ++ sanitized conn.req.method))) fun e =>
      logDispatchError env (logAccessThrewText e)

def beforeHandlerDescriptor (hrm : Handler) : DispatchM (Option RouteDescriptor) := do
  let conn ← getConn
  if conn.matchedPathTemplate = [] then pure none
  else do
    let methods ← readAllowed env hrm
    pure (some ⟨conn.matchedPathTemplate, methods, conn.matchedIsPrefix⟩)

def gatedChain (gate : Bool) (chain : DispatchM (Option HttpResponse)) :
    DispatchM (Option HttpResponse) := if gate then chain else pure none

def fireBeforeHandlerGated (hrm : Handler) : DispatchM Bool := do
  let server ← serverGate env .beforeHandler
  let route ← routeGate env (some hrm) .beforeHandler
  if !server && !route then pure false
  else do
    let desc ← beforeHandlerDescriptor env hrm
    let ctx (c : Conn) : HookCtx := .beforeHandler desc c.methodEnum (some hrm)
    let sc ← gatedChain server (fireServer env .beforeHandler ctx)
    match sc with
    | some r => do
      emplace r
      pure true
    | none => do
      let sc ← gatedChain route (fireRoute env hrm .beforeHandler ctx)
      match sc with
      | some r => do
        emplace r
        pure true
      | none => pure false

def emplaceIfSome : Option HttpResponse → DispatchM Unit
  | some r => emplace r
  | none => pure ()

def afterHandlerCtx (c : Conn) : HookCtx := .afterHandler (c.response.getD {})

def fireRouteIfSome (resource : Option Handler) (phase : HookPhase) (ctx : Conn → HookCtx) :
    DispatchM (Option HttpResponse) :=
  match resource with
  | some res => fireRoute env res phase ctx
  | none => pure none

def fireAfterHandlerGated (resource : Option Handler) : DispatchM Unit := do
  let server ← serverGate env .afterHandler
  let route ← routeGate env resource .afterHandler
  let conn ← getConn
  if (!server && !route) || conn.response.isNone then pure ()
  else do
    let sc ← gatedChain server (fireServer env .afterHandler afterHandlerCtx)
    emplaceIfSome sc
    let sc ← gatedChain route (fireRouteIfSome env resource .afterHandler afterHandlerCtx)
    emplaceIfSome sc

/-- `fire_response_sent`: the hooks, then the `log_access` slot. -/
def fireResponseSent (ctx : HookCtx) : DispatchM Unit := do
  let st ← readHooks env
  fireVoid env .server (fun _ => ctx) ((st.bus.table.hooks .responseSent).map (·.fn))
  if st.bus.logAccessAlias then fireLogAccessAlias env else pure ()

def fireRouteVoid (gate : Bool) (resource : Option Handler) (phase : HookPhase)
    (ctx : HookCtx) : DispatchM Unit :=
  match gate, resource with
  | true, some res => do
    let fns ← routeHooks env res phase
    fireVoid env .route (fun _ => ctx) fns
  | _, _ => pure ()

def fireServerVoid (gate : Bool) (phase : HookPhase) (ctx : HookCtx) : DispatchM Unit :=
  if gate then do
    let fns ← serverHooks env phase
    fireVoid env .server (fun _ => ctx) fns
  else pure ()

def fireResponseSentGated (resource : Option Handler) : DispatchM Unit := do
  let st ← readHooks env
  let route ← routeGate env resource .responseSent
  let conn ← getConn
  match conn.response with
  | none => pure ()
  | some r =>
    if st.bus.hasHooksFor .responseSent || route || st.bus.logAccessAlias then do
      let ctx : HookCtx := .responseSent r r.statusCode r.bytesQueued
      fireResponseSent env ctx
      fireRouteVoid env route resource .responseSent ctx
    else pure ()

def routeResolvedDescriptor (hrm : Option Handler) : DispatchM (Option RouteDescriptor) :=
  match hrm with
  | some res => do
    let conn ← getConn
    let methods ← readAllowed env res
    pure (some ⟨conn.matchedPathTemplate, methods, conn.matchedIsPrefix⟩)
  | none => pure none

def fireRouteResolvedGated (hrm : Option Handler) : DispatchM Unit := do
  let server ← serverGate env .routeResolved
  if server then do
    let desc ← routeResolvedDescriptor env hrm
    let fns ← serverHooks env .routeResolved
    fireVoid env .server (fun _ => .routeResolved desc hrm) fns
  else pure ()

/-- `per_route_table` locks the weak pointer only when somebody may listen; a
    resource that is gone has no table. -/
def fireRequestCompletedGated (succeeded : Bool) : DispatchM Unit := do
  let server ← serverGate env .requestCompleted
  let conn ← getConn
  let resource := if server || conn.routeHasHookTable then conn.resourceWeak else none
  let route ← routeGate env resource .requestCompleted
  if !server && !route then pure ()
  else do
    let ctx : HookCtx := .requestCompleted conn.response succeeded
    fireServerVoid env server .requestCompleted ctx
    fireRouteVoid env route resource .requestCompleted ctx

end
end HttpServer
