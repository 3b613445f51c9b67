import HttpServer.Dispatch

/-!
What each part of the request path can add to the history and do to the
connection, and which parts never throw. The lemmas follow the definitions one
by one; later proofs cite them and do not unfold the code again.
-/
namespace HttpServer
open Effect

variable (env : Env)

def firingKinds (phase : HookPhase) : List EventKind :=
  [.sharedRead, .logError, .hook phase, .authHandler, .methodNotAllowedHandler .hookAlias]

theorem sharedRead_mem_firingKinds (phase : HookPhase) : .sharedRead ∈ firingKinds phase := by
  simp [firingKinds]

theorem logError_mem_firingKinds (phase : HookPhase) : .logError ∈ firingKinds phase := by
  simp [firingKinds]

theorem hook_mem_firingKinds (phase : HookPhase) : .hook phase ∈ firingKinds phase := by
  simp [firingKinds]

theorem calm_askAuth (req : Request) :
    Calm Conn.apart (· ∈ [.authHandler, .logError]) (askAuth env req) := by
  refine .tryCatch (.bind ?_ fun _ => .pure _) fun e => .bind ?_ fun _ => .pure _
  · exact .callUser env _ (by simp [UserCall.kind])
  · exact .logDispatchError env _ (by simp)

theorem calm_authAlias (call : HookCall) :
    Calm Conn.apart (· ∈ [.authHandler, .logError]) (authAlias env call) := by
  unfold authAlias
  split
  · exact .pure _
  · split
    · exact .pure _
    · refine .bind (calm_askAuth env _) fun verdict => ?_
      cases verdict with
      | none => exact .pure _
      | some rejection => exact .pure _

theorem emits_methodNotAllowedAlias (call : HookCall) :
    EmitsOnly Conn.apart (· ∈ [.sharedRead, .methodNotAllowedHandler .hookAlias])
      (methodNotAllowedAlias env call) := by
  unfold methodNotAllowedAlias
  split
  · refine .bind (Calm.readAllowed env _ (by simp)).emits fun allowed => ?_
    split
    · exact .pure _
    · refine .bind (.callUser env _ (by simp [UserCall.kind])) fun resp => ?_
      exact .bind (.raise _) fun _ => .pure _
  · exact .pure _

variable {kinds : EventKind → Prop} {phase : HookPhase} {ctx : HookCtx}

theorem emits_userAction (call : HookCall) : EmitsOnly Conn.apart kinds (userAction env call) := by
  refine .bind .get fun s => .bind ?_ fun _ => .raise _
  unfold editInPlace
  split
  · exact (Calm.emplace _).emits
  · exact .pure _

theorem emits_actionBody (call : HookCall) :
    EmitsOnly Conn.apart
      (· ∈ [.sharedRead, .logError, .authHandler, .methodNotAllowedHandler .hookAlias])
      (actionBody env call) := by
  unfold actionBody
  split
  · exact (calm_authAlias env call).emits.mono (by simp)
  · exact (emits_methodNotAllowedAlias env call).mono (by simp)
  · exact .pure _
  · exact emits_userAction env call

theorem emits_hookAction (call : HookCall) :
    EmitsOnly Conn.apart (· ∈ firingKinds call.ctx.phase) (hookAction env call) := by
  have body : EmitsOnly Conn.apart (· ∈ firingKinds call.ctx.phase) (actionBody env call) :=
    (emits_actionBody env call).mono (by simp [firingKinds])
  refine .bind (steps_attempt body) fun result => .bind (.emit ?_) fun _ => .raise _
  exact hook_mem_firingKinds call.ctx.phase

theorem calm_fireShortCircuit (scope : HookScope) {ctx : Conn → HookCtx} (fns : List HookFn)
    (fires : ∀ c, (ctx c).phase = phase) :
    Calm Conn.apart (· ∈ firingKinds phase) (fireShortCircuit env scope ctx fns) := by
  induction fns with
  | nil => exact .pure _
  | cons fn rest ih =>
    refine .bind .getConn fun conn => ?_
    have action := emits_hookAction env ⟨scope, fn, conn.request, ctx conn⟩
    rw [fires conn] at action
    refine .bind (.tryCatch action fun e => ?_) fun action => ?_
    · exact .bind (.logDispatchError env _ (logError_mem_firingKinds phase)) fun _ => .pure _
    · cases action with
      | some r => exact .pure _
      | none => exact ih

theorem calm_fireVoid (scope : HookScope) {ctx : Conn → HookCtx} (fns : List HookFn)
    (fires : ∀ c, (ctx c).phase = phase) :
    Calm Conn.apart (· ∈ firingKinds phase) (fireVoid env scope ctx fns) := by
  induction fns with
  | nil => exact .pure _
  | cons fn rest ih =>
    refine .bind .getConn fun conn => .bind (.tryCatch ?_ fun e => ?_) fun _ => ih
    · have observed : EventKind.hook (ctx conn).phase ∈ firingKinds phase := by
        rw [fires conn]
        exact hook_mem_firingKinds phase
      refine .bind .get fun s => ?_
      split
      · exact .emit observed
      · exact .bind (.emit observed) fun _ => .throw _
    · exact .logDispatchError env _ (logError_mem_firingKinds phase)

section
variable {γ : Type} {view : Conn → γ} {kinds : EventKind → Prop} (allowed : kinds .sharedRead)
include allowed

theorem calm_serverHooks (phase : HookPhase) : Calm view kinds (serverHooks env phase) :=
  .bind (.readHooks env allowed) fun _ => .pure _

theorem calm_routeHooks (resource : Handler) (phase : HookPhase) :
    Calm view kinds (routeHooks env resource phase) :=
  .bind (.readHooks env allowed) fun _ => .pure _

theorem calm_serverGate (phase : HookPhase) : Calm view kinds (serverGate env phase) :=
  .bind (.readHooks env allowed) fun _ => .pure _

theorem calm_routeGate (resource : Option Handler) (phase : HookPhase) :
    Calm view kinds (routeGate env resource phase) :=
  .bind (.readHooks env allowed) fun _ => .pure _

end

theorem calm_gatedChain {γ : Type} {view : Conn → γ} (gate : Bool)
    {chain : DispatchM (Option HttpResponse)} (fires : Calm view kinds chain) :
    Calm view kinds (gatedChain gate chain) := by
  unfold gatedChain
  split
  · exact fires
  · exact .pure _

section
variable {phase : HookPhase} {ctx : Conn → HookCtx}

theorem calm_fireServer (fires : ∀ c, (ctx c).phase = phase) :
    Calm Conn.apart (· ∈ firingKinds phase) (fireServer env phase ctx) :=
  .bind (calm_serverHooks env (sharedRead_mem_firingKinds phase) phase) fun fns =>
    calm_fireShortCircuit env .server fns fires

theorem calm_fireRoute (resource : Handler) (fires : ∀ c, (ctx c).phase = phase) :
    Calm Conn.apart (· ∈ firingKinds phase) (fireRoute env resource phase ctx) :=
  .bind (calm_routeHooks env (sharedRead_mem_firingKinds phase) resource phase) fun fns =>
    calm_fireShortCircuit env .route fns fires

theorem calm_fireRouteIfSome (resource : Option Handler) (fires : ∀ c, (ctx c).phase = phase) :
    Calm Conn.apart (· ∈ firingKinds phase) (fireRouteIfSome env resource phase ctx) := by
  cases resource with
  | none => exact .pure _
  | some res => exact calm_fireRoute env res fires

end

theorem calm_fireHandlerException (exception : Exc) (message : Str) :
    Calm Conn.apart (· ∈ .internalErrorHandler .hookAlias :: firingKinds .handlerException)
      (fireHandlerException env exception message) := by
  refine .bind (.readHooks env (by simp [firingKinds])) fun st => .bind ?_ fun sc => ?_
  · exact (calm_fireShortCircuit env .server _ fun _ => rfl).mono fun k member =>
      List.mem_cons_of_mem _ member
  · cases sc with
    | some r => exact .pure _
    | none =>
      dsimp only
      split
      · refine .bind .getConn fun conn => .tryCatch (.bind ?_ fun _ => .pure _) fun e => ?_
        · exact .callUser env _ (by simp [UserCall.kind])
        · exact .bind (.logDispatchError env _ (by simp [firingKinds])) fun _ => .pure _
      · exact .pure _

theorem calm_beforeHandlerDescriptor {kinds : EventKind → Prop} (allowed : kinds .sharedRead)
    (hrm : Handler) : Calm Conn.apart kinds (beforeHandlerDescriptor env hrm) := by
  refine .bind .getConn fun conn => ?_
  split
  · exact .pure _
  · exact .bind (.readAllowed env _ allowed) fun _ => .pure _

theorem calm_fireBeforeHandlerGated (hrm : Handler) :
    Calm Conn.apart (· ∈ firingKinds .beforeHandler) (fireBeforeHandlerGated env hrm) := by
  have reads := sharedRead_mem_firingKinds .beforeHandler
  refine .bind (calm_serverGate env reads _) fun server => ?_
  refine .bind (calm_routeGate env reads _ _) fun route => ?_
  split
  · exact .pure _
  · refine .bind (calm_beforeHandlerDescriptor env reads hrm) fun desc => ?_
    refine .bind (calm_gatedChain server (calm_fireServer env fun _ => rfl)) fun sc => ?_
    cases sc with
    | some r => exact .bind (.emplace r) fun _ => .pure _
    | none =>
      refine .bind (calm_gatedChain route (calm_fireRoute env hrm fun _ => rfl)) fun sc => ?_
      cases sc with
      | some r => exact .bind (.emplace r) fun _ => .pure _
      | none => exact .pure _

theorem calm_emplaceIfSome {kinds : EventKind → Prop} (sc : Option HttpResponse) :
    Calm Conn.apart kinds (emplaceIfSome sc) := by
  cases sc with
  | some r => exact .emplace r
  | none => exact .pure _

theorem calm_fireAfterHandlerGated (resource : Option Handler) :
    Calm Conn.apart (· ∈ firingKinds .afterHandler) (fireAfterHandlerGated env resource) := by
  have reads := sharedRead_mem_firingKinds .afterHandler
  refine .bind (calm_serverGate env reads _) fun server => ?_
  refine .bind (calm_routeGate env reads _ _) fun route => .bind .getConn fun conn => ?_
  split
  · exact .pure _
  · refine .bind (calm_gatedChain server (calm_fireServer env fun _ => rfl)) fun sc => ?_
    refine .bind (calm_emplaceIfSome sc) fun _ => ?_
    refine .bind (calm_gatedChain route (calm_fireRouteIfSome env resource fun _ => rfl))
      fun sc => ?_
    exact calm_emplaceIfSome sc

def responseSentKinds : List EventKind := .logAccess :: firingKinds .responseSent

theorem calm_fireLogAccessAlias :
    Calm Conn.apart (· ∈ responseSentKinds) (fireLogAccessAlias env) := by
  refine .bind .getConn fun conn => .tryCatch (.callUser env _ ?_) fun e => ?_
  · simp [UserCall.kind, responseSentKinds]
  · exact .logDispatchError env _ (by simp [responseSentKinds, firingKinds])

theorem calm_fireResponseSent (fires : ctx.phase = .responseSent) :
    Calm Conn.apart (· ∈ responseSentKinds) (fireResponseSent env ctx) := by
  refine .bind (.readHooks env (by simp [responseSentKinds, firingKinds])) fun st =>
    .bind ?_ fun _ => ?_
  · exact (calm_fireVoid env .server _ fun _ => fires).mono fun k member =>
      List.mem_cons_of_mem _ member
  · split
    · exact calm_fireLogAccessAlias env
    · exact .pure _

theorem calm_fireRouteVoid (fires : ctx.phase = phase) (gate : Bool) (resource : Option Handler) :
    Calm Conn.apart (· ∈ firingKinds phase) (fireRouteVoid env gate resource phase ctx) := by
  unfold fireRouteVoid
  split
  · refine .bind (calm_routeHooks env (sharedRead_mem_firingKinds phase) _ _) fun fns => ?_
    exact calm_fireVoid env .route fns fun _ => fires
  · exact .pure _

theorem calm_fireResponseSentGated (resource : Option Handler) :
    Calm Conn.apart (· ∈ responseSentKinds) (fireResponseSentGated env resource) := by
  have reads : EventKind.sharedRead ∈ responseSentKinds := by
    simp [responseSentKinds, firingKinds]
  refine .bind (.readHooks env reads) fun st => .bind (calm_routeGate env reads _ _) fun route =>
    .bind .getConn fun conn => ?_
  cases conn.response with
  | none => exact .pure _
  | some r =>
    dsimp only
    split
    · refine .bind (calm_fireResponseSent env rfl) fun _ => ?_
      exact (calm_fireRouteVoid env rfl route resource).mono fun k member =>
        List.mem_cons_of_mem _ member
    · exact .pure _

theorem calm_routeResolvedDescriptor (allowed : kinds .sharedRead) (hrm : Option Handler) :
    Calm Conn.apart kinds (routeResolvedDescriptor env hrm) := by
  cases hrm with
  | some res => exact .bind .getConn fun _ => .bind (.readAllowed env res allowed) fun _ => .pure _
  | none => exact .pure _

theorem calm_fireRouteResolvedGated (hrm : Option Handler) :
    Calm Conn.apart (· ∈ firingKinds .routeResolved) (fireRouteResolvedGated env hrm) := by
  have reads := sharedRead_mem_firingKinds .routeResolved
  refine .bind (calm_serverGate env reads _) fun server => ?_
  split
  · refine .bind (calm_routeResolvedDescriptor env reads hrm) fun desc => ?_
    refine .bind (calm_serverHooks env reads _) fun fns => ?_
    exact calm_fireVoid env .server fns fun _ => rfl
  · exact .pure _

theorem emits_notFoundPage :
    EmitsOnly Conn.apart (· = .notFoundHandler) (notFoundPage env) := by
  refine .bind Calm.getConn.emits fun conn => ?_
  split
  · exact .callUser env _ rfl
  · exact .pure _

theorem emits_emplaceNotFound :
    EmitsOnly Conn.apart (· = .notFoundHandler) (emplaceNotFound env) := by
  refine .bind Calm.getConn.emits fun conn => ?_
  split
  · exact .pure _
  · exact .bind (emits_notFoundPage env) fun page => (Calm.emplace page).emits

theorem emits_methodNotAllowedPage :
    EmitsOnly Conn.apart (· = .methodNotAllowedHandler .errorPage) (methodNotAllowedPage env) := by
  refine .bind Calm.getConn.emits fun conn => ?_
  split
  · exact .callUser env _ rfl
  · exact .pure _

def errorPageKinds : List EventKind := [.internalErrorHandler .errorPage, .logError]

theorem calm_runInternalErrorHandlerSafely (msg : Str) :
    Calm Conn.apart (· ∈ errorPageKinds) (runInternalErrorHandlerSafely env msg) := by
  refine .tryCatch (.bind Calm.getConn.emits fun conn => ?_) fun _ => .bind ?_ fun _ => .pure _
  · split
    · exact .callUser env _ (by simp [UserCall.kind, errorPageKinds])
    · split
      · exact .pure _
      · exact .pure _
  · exact .logDispatchError env _ (by simp [errorPageKinds])

theorem calm_materializeResponse :
    Calm Conn.apart kinds (materializeResponse env) := .bind .getConn fun _ => .pure _

theorem calm_emplaceAndMaterialize (r : HttpResponse) :
    Calm Conn.apart kinds (emplaceAndMaterialize env r) :=
  .bind (.emplace r) fun _ => calm_materializeResponse env

theorem calm_materializeOrErrorPage :
    Calm Conn.apart (· ∈ errorPageKinds) (materializeOrErrorPage env) := by
  refine .bind (calm_materializeResponse env) fun raw => ?_
  split
  · exact .pure _
  · exact .bind (calm_runInternalErrorHandlerSafely env _) fun r =>
      calm_emplaceAndMaterialize env r

/-- Materialising a body never throws, so the catch arms are dead code. -/
theorem getRawResponseWithFallback_eq :
    getRawResponseWithFallback env = materializeOrErrorPage env :=
  tryCatch_eq_of_returns (calm_materializeOrErrorPage env).returns _

theorem calm_rawOrForced500 : Calm Conn.apart (· ∈ errorPageKinds) (rawOrForced500 env) := by
  unfold rawOrForced500
  rw [getRawResponseWithFallback_eq]
  refine .bind (calm_materializeOrErrorPage env) fun raw => ?_
  split
  · exact .pure _
  · exact .bind (.logDispatchError env _ (by simp [errorPageKinds])) fun _ =>
      calm_emplaceAndMaterialize env _

theorem emits_decorateMhdResponse (r : HttpResponse) :
    EmitsOnly Conn.apart (· = .decorate) (decorateMhdResponse env r) := by
  refine .bind (.emit rfl) fun _ => ?_
  split
  · exact .pure _
  · exact .throw _

theorem calm_mhdQueue (what : Queued) : Calm Conn.apart (· = .queue) (mhdQueue env what) :=
  .bind (.emit rfl) fun _ => .pure _

def queueingKinds : List EventKind := .decorate :: .queue :: (errorPageKinds ++ responseSentKinds)

theorem emits_materializeAndQueueResponse (resource : Option Handler) :
    EmitsOnly Conn.apart (· ∈ queueingKinds) (materializeAndQueueResponse env resource) := by
  refine .bind ((calm_rawOrForced500 env).emits.mono ?_) fun raw => ?_
  · simp +contextual [queueingKinds]
  · split
    · refine .bind Calm.getConn.emits fun conn => .bind ?_ fun _ => .bind ?_ fun _ =>
        .bind ?_ fun _ => .pure _
      · exact (emits_decorateMhdResponse env _).mono (by simp [queueingKinds])
      · exact (calm_mhdQueue env _).emits.mono (by simp [queueingKinds])
      · exact (calm_fireResponseSentGated env resource).emits.mono (by
          simp +contextual [queueingKinds])
    · exact .pure _

theorem calm_tryWsUpgrade (w : WireRequest) :
    Calm Conn.apart (· = .queue) (tryWsUpgrade env w) := by
  refine .bind .getConn fun conn => ?_
  split
  · exact .pure _
  · exact .bind (calm_mhdQueue env _) fun _ => .pure _

def Conn.identity (c : Conn) : Option Str × Str × Bool :=
  (c.request.map (·.path), c.standardizedUrl, c.skipHandler)

variable (c : Conn) (d : Conn)

theorem identity_of_apart (same : c.apart = d.apart) : c.identity = d.identity := by
  have fields := congrArg Conn.identity same
  exact fields

theorem calm_resolveResourceForRequest :
    Calm Conn.identity (· = .sharedRead) (resolveResourceForRequest env) := by
  refine .bind (.readHooks env rfl) fun st => .bind .getConn fun conn => ?_
  split
  · exact .pure _
  · refine .bind (.setConn fun c => ?_) fun _ => .pure _
    cases h : c.request with
    | none => simp [Conn.identity, h]
    | some req => simp [Conn.identity, h]

def Conn.resolve (st : HookState) (result : LookupResult) (c : Conn) : Conn :=
  let needPathTemplate := st.bus.hasHooksFor .routeResolved || st.bus.hasHooksFor .beforeHandler
  { c with
    request := c.request.map fun r => { r with setArgs := r.setArgs ++ result.capturedParams }
    matchedPathTemplate := if needPathTemplate then c.standardizedUrl else c.matchedPathTemplate
    matchedIsPrefix := if needPathTemplate then result.entry.isPrefix else c.matchedIsPrefix }

theorem resolveResourceForRequest_run {s : Session} {found : Option LookupResult}
    (looked : (env.routes.lookupV2 env.rx env.cache s.conn.methodEnum
      s.conn.standardizedUrl).2 = found) :
    outcome (resolveResourceForRequest env) s = .ok (found.map fun result => result.entry.handler) ∧
      after (resolveResourceForRequest env) s =
        ⟨found.elim s.conn fun result => s.conn.resolve (env.hooksAt s.history) result,
          s.history ++ [.sharedRead]⟩ := by
  have read : outcome (readHooks env) s = .ok (env.hooksAt s.history) := rfl
  have conn : outcome getConn (after (readHooks env) s) = .ok s.conn := rfl
  unfold resolveResourceForRequest
  rw [(bind_of_ok s read).1, (bind_of_ok s read).2, (bind_of_ok _ conn).1, (bind_of_ok _ conn).2,
    looked]
  cases found with
  | none => exact ⟨rfl, rfl⟩
  | some result => exact ⟨rfl, rfl⟩

theorem calm_stampResource (hrm : Handler) :
    Calm Conn.identity (· = .sharedRead) (stampResource env hrm) :=
  .bind (.readHooks env rfl) fun _ => .setConn fun _ => rfl

def exceptionKinds : List EventKind :=
  .internalErrorHandler .hookAlias :: (errorPageKinds ++ firingKinds .handlerException)

theorem calm_answerException (exception : Exc) :
    Calm Conn.apart (· ∈ exceptionKinds) (answerException env exception) := by
  have reads : EventKind.sharedRead ∈ exceptionKinds := by simp [exceptionKinds, firingKinds]
  refine .bind .getConn fun conn => .bind (calm_routeGate env reads _ _) fun route =>
    .bind (.readHooks env reads) fun st => ?_
  dsimp only
  split
  · refine .bind (.bind (calm_gatedChain _ ?_) fun sc => ?_) fun sc => .emplace _
    · exact (calm_fireHandlerException env _ _).mono (by simp +contextual [exceptionKinds])
    · cases sc with
      | some r => exact .pure _
      | none =>
        have chain : Calm Conn.apart (· ∈ firingKinds .handlerException)
            (fireRouteIfSome env conn.resourceWeak .handlerException
              fun _ => .handlerException exception exception.message) :=
          calm_fireRouteIfSome env _ fun _ => rfl
        exact calm_gatedChain route (chain.mono (by simp +contextual [exceptionKinds]))
  · refine .bind ?_ fun _ => .emplace _
    exact (calm_runInternalErrorHandlerSafely env _).mono (by simp +contextual [exceptionKinds])

theorem calm_handleDispatchException (exception : Exc) :
    Calm Conn.apart (· ∈ .dispatchException :: exceptionKinds)
      (handleDispatchException env exception) := by
  refine .bind (.emit List.mem_cons_self) fun _ => ?_
  exact (calm_answerException env exception).mono fun k member => List.mem_cons_of_mem _ member

theorem emits_renderResource (hrm : Handler) :
    EmitsOnly Conn.apart (· ∈ .render :: errorPageKinds) (renderResource env hrm) := by
  refine .bind Calm.getConn.emits fun conn => .bind (.callUser env _ ?_) fun r => ?_
  · simp [UserCall.kind]
  · refine .bind (Calm.emplace r).emits fun _ => ?_
    split
    · refine .bind ?_ fun page => (Calm.emplace page).emits
      exact (calm_runInternalErrorHandlerSafely env _).emits.mono fun k member =>
        List.mem_cons_of_mem _ member
    · exact .pure _

theorem emits_refuseMethod (hrm : Handler) :
    EmitsOnly Conn.apart (· ∈ [.methodNotAllowedHandler .errorPage, .sharedRead])
      (refuseMethod env hrm) := by
  refine .bind ((emits_methodNotAllowedPage env).mono (by simp)) fun page => ?_
  refine .bind (Calm.emplace page).emits fun _ => ?_
  refine .bind (Calm.readAllowed env hrm (by simp)).emits fun allowed => ?_
  exact .bind (.raise _) fun page => (Calm.emplace page).emits

def dispatchKinds : List EventKind :=
  .render :: .methodNotAllowedHandler .errorPage :: .sharedRead :: .dispatchException ::
    exceptionKinds

def Conn.detached (c : Conn) : Conn := { c with response := none, pp := false }

theorem detached_of_apart (same : c.apart = d.apart) : c.detached = d.detached :=
  congrArg (fun c : Conn => { c with pp := false }) same

theorem identity_of_detached (same : c.detached = d.detached) : c.identity = d.identity := by
  have fields := congrArg Conn.identity same
  exact fields

theorem emits_dispatchBody (hrm : Handler) :
    EmitsOnly Conn.detached (· ∈ dispatchKinds) (dispatchBody env hrm) := by
  refine .bind (.setConn fun _ => rfl) fun _ => .bind Calm.getConn.emits fun conn => ?_
  refine .bind (Calm.readAllowed env hrm (by simp [dispatchKinds])).emits fun allowed => ?_
  split
  · refine ((emits_renderResource env hrm).weaken detached_of_apart).mono ?_
    simp +contextual [dispatchKinds, exceptionKinds]
  · refine ((emits_refuseMethod env hrm).weaken detached_of_apart).mono ?_
    simp [dispatchKinds]

theorem calm_dispatchResourceHandler (hrm : Handler) :
    Calm Conn.detached (· ∈ dispatchKinds) (dispatchResourceHandler env hrm) := by
  refine .tryCatch (emits_dispatchBody env hrm) fun e => .bind ?_ fun _ => ?_
  · exact .logDispatchError env _ (by simp [dispatchKinds, exceptionKinds, errorPageKinds])
  · refine ((calm_handleDispatchException env e).weaken detached_of_apart).mono ?_
    simp +contextual [dispatchKinds]

def receivingPhases : List HookPhase := [.requestReceived, .bodyChunk]

abbrev finalKind (k : EventKind) : Prop := ∀ phase ∈ receivingPhases, k ≠ .hook phase

theorem emits_finalizeAnswer (w : WireRequest) :
    EmitsOnly Conn.identity finalKind (finalizeAnswer env w) := by
  have late : ∀ {α γ : Type} {view : Conn → γ} {kinds : List EventKind} {x : DispatchM α},
      EmitsOnly view (· ∈ kinds) x → (∀ k ∈ kinds, finalKind k) →
      (∀ c d : Conn, view c = view d → c.identity = d.identity) →
      EmitsOnly Conn.identity finalKind x :=
    fun emits sound blind => (emits.mono sound).weaken blind
  have queue resource : EmitsOnly Conn.identity finalKind
      (materializeAndQueueResponse env resource) :=
    late (emits_materializeAndQueueResponse env resource) (by decide) identity_of_apart
  have resolved hrm : EmitsOnly Conn.identity finalKind (fireRouteResolvedGated env hrm) :=
    late (calm_fireRouteResolvedGated env hrm).emits (by decide) identity_of_apart
  have edited hrm : EmitsOnly Conn.identity finalKind (fireAfterHandlerGated env hrm) :=
    late (calm_fireAfterHandlerGated env hrm).emits (by decide) identity_of_apart
  refine .bind (((calm_tryWsUpgrade env w).emits.mono ?_).weaken identity_of_apart)
    fun upgraded => ?_
  · simp [finalKind, receivingPhases]
  cases upgraded with
  | some result => exact .pure _
  | none =>
    refine .bind Calm.getConn.emits fun conn => ?_
    split
    · exact queue none
    · refine .bind ((calm_resolveResourceForRequest env).emits.mono (by simp [finalKind, receivingPhases]))
        fun hrm => ?_
      cases hrm with
      | none =>
        refine .bind (resolved none) fun _ => .bind ?_ fun _ => .bind (edited none) fun _ =>
          queue none
        exact ((emits_emplaceNotFound env).mono (by simp [finalKind, receivingPhases])).weaken
          identity_of_apart
      | some hrm =>
        refine .bind ((calm_stampResource env hrm).emits.mono (by simp [finalKind, receivingPhases]))
          fun _ => .bind (resolved _) fun _ => ?_
        refine .bind (late (calm_fireBeforeHandlerGated env hrm).emits (by decide)
          identity_of_apart) fun answered => ?_
        split
        · exact queue _
        · refine .bind ?_ fun _ => .bind (edited _) fun _ => queue _
          exact ((calm_dispatchResourceHandler env hrm).emits.mono (by decide)).weaken
            identity_of_detached

def Conn.started (c : Conn) : Bool × Str := (c.request.isSome, c.standardizedUrl)

def Conn.arrived (c : Conn) : (Bool × Str) × HttpMethod := (c.started, c.methodEnum)

def Conn.awaiting (c : Conn) : Option Str × (Bool × Str) × HttpMethod :=
  (c.request.map (·.path), c.arrived)

theorem awaiting_of_apart (same : c.apart = d.apart) : c.awaiting = d.awaiting := by
  have fields := congrArg Conn.awaiting same
  exact fields

theorem arrived_of_awaiting (same : c.awaiting = d.awaiting) :
    c.arrived = d.arrived := congrArg Prod.snd same

theorem awaiting_map {f : Request → Request} (keeps : ∀ r, (f r).path = r.path) :
    { c with request := c.request.map f }.awaiting = c.awaiting := by
  cases h : c.request with
  | none => simp [Conn.awaiting, Conn.arrived, Conn.started, h]
  | some req => simp [Conn.awaiting, Conn.arrived, Conn.started, h, keeps]

theorem calm_receiveChunk (uploadData : Str) :
    Calm Conn.awaiting (· ∈ firingKinds .bodyChunk) (receiveChunk env uploadData) := by
  refine .bind (calm_serverGate env (sharedRead_mem_firingKinds _) _) fun gate => ?_
  refine .bind (calm_gatedChain gate ?_) fun sc => ?_
  · refine .bind .getConn fun conn => .bind (.setConn fun _ => rfl) fun _ => ?_
    refine Calm.weaken ?_ awaiting_of_apart
    exact calm_fireServer env fun _ => rfl
  · cases sc with
    | some r => exact .bind (.setConn fun _ => rfl) fun _ => .pure _
    | none =>
      refine .bind (.setConn fun c => ?_) fun _ => .pure _
      split
      · exact awaiting_map c fun _ => rfl
      · rfl

end HttpServer
