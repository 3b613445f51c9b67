import HttpServer.HookFiring

/-!
The request path behind `answer_to_connection`: the two body-pipeline steps,
the WebSocket upgrade check, routing, dispatch to the resource, the error
pages and the hand-over to libmicrohttpd.
-/
namespace HttpServer
open Effect

section
variable (env : Env)

def notFoundPage : DispatchM HttpResponse := do
  let conn ← getConn
  if env.config.notFoundHandler then callUser env (.notFoundHandler conn.req)
  else pure (.page "Not Found".toList 404)

def methodNotAllowedPage : DispatchM HttpResponse := do
  let conn ← getConn
  if env.config.methodNotAllowedHandler then
    callUser env (.methodNotAllowedHandler .errorPage conn.req)
  else pure (.page "Method not Allowed".toList 405)

/-- `internal_error_page` with `force_our` off; on, it is `HttpResponse.empty500`. -/
def internalErrorPage (msg : Str) : DispatchM HttpResponse := do
  let conn ← getConn
  if env.config.internalErrorHandler then
    callUser env (.internalErrorHandler .errorPage conn.req msg)
  else if env.config.exposeExceptionMessages then pure (.page msg 500)
  else pure (.page "Internal Server Error".toList 500)

def runInternalErrorHandlerSafely (msg : Str) : DispatchM HttpResponse :=
  tryCatch (internalErrorPage env msg) fun _ => do
    logDispatchError env
      ("internal_error_handler threw; ".toList ++ "sending hardcoded empty-body 500".toList)
    pure .empty500

def materializeResponse : DispatchM Bool := do
  let conn ← getConn
  pure (conn.response.any (HttpResponse.materializes env.creates))

def emplaceAndMaterialize (r : HttpResponse) : DispatchM Bool := do
  emplace r
  materializeResponse env

/-- The `try` block of `get_raw_response_with_fallback`. -/
def materializeOrErrorPage : DispatchM Bool := do
  let raw ← materializeResponse env
  if raw then pure true
  else do
    let r ← runInternalErrorHandlerSafely env "materialize_response returned null".toList
    emplaceAndMaterialize env r

def materializeErrorPage (msg : Str) : DispatchM Bool :=
  tryCatch (do
    let r ← runInternalErrorHandlerSafely env msg
    emplaceAndMaterialize env r) fun _ => pure false

def materializeCatch : Exc → DispatchM Bool
  | .invalidArgument _ =>
    tryCatch (do
      let r ← notFoundPage env
      emplaceAndMaterialize env r) fun _ => pure false
  | .stdException what => do
    logDispatchError env ("materialize threw: ".toList ++ what)
    materializeErrorPage env what
  | .other => do
    logDispatchError env "materialize threw unknown exception".toList
    materializeErrorPage env "unknown exception".toList

def getRawResponseWithFallback : DispatchM Bool :=
  tryCatch (materializeOrErrorPage env) (materializeCatch env)

/-- `decorate_mhd_response`; only rendering a cookie can throw. -/
def decorateMhdResponse (r : HttpResponse) : DispatchM Unit := do
  emit (.decorate r)
  match r.setCookieLines env.tmLeft with
  | .ok _ => pure ()
  | .error e => throw (.invalidArgument e.message)

def mapToMhdDigestArgs (p : DigestParams) : DigestArgs where
  realm := p.realm
  opaqueText := if p.opaqueText = [] then env.config.digestOpaque else p.opaqueText
  domain := if p.domain = [] then none else some p.domain
  algorithm := p.algorithm
  qopAuth := p.qopAuth
  signalStale := p.signalStale
  userhashSupport := p.userhashSupport
  preferUtf8 := p.preferUtf8

/-- What `queue_response_dispatching_kind` queues for the response. -/
def queuedAs (r : HttpResponse) : Queued :=
  match env.config.haveDauth, r.body with
  | true, some (.digestChallenge p) => .response r (some (mapToMhdDigestArgs env p))
  | _, _ => .response r none

def mhdQueue (what : Queued) : DispatchM MhdResult := do
  emit (.queue what (env.accepts what))
  pure (if env.accepts what then .yes else .no)

def queueResponseDispatchingKind (r : HttpResponse) : DispatchM MhdResult :=
  mhdQueue env (queuedAs env r)

/-- The raw response, or the hardcoded 500 when there is none. -/
def rawOrForced500 : DispatchM Bool := do
  let raw ← getRawResponseWithFallback env
  if raw then pure true
  else do
    logDispatchError env ("materialize_and_queue_response: ".toList ++
      "get_raw_response_with_fallback returned null; ".toList ++
      "forcing hardcoded empty-body 500".toList)
    emplaceAndMaterialize env .empty500

def materializeAndQueueResponse (resource : Option Handler) : DispatchM MhdResult := do
  let raw ← rawOrForced500 env
  if raw then do
    let conn ← getConn
    let r := conn.response.getD {}
    decorateMhdResponse env r
    let toRet ← queueResponseDispatchingKind env r
    fireResponseSentGated env resource
    pure toRet
  else pure .no

def isInfixIgnoringCase (needle hay : Str) : Bool :=
  (foldCase hay).tails.any fun rest => (foldCase needle).isPrefixOf rest

def upgradeRequested (w : WireRequest) : Bool :=
  (w.header "Upgrade".toList).any fun v => foldCase v = foldCase "websocket".toList

def validateWebsocketHandshake (w : WireRequest) : Option Str :=
  match w.header "Connection".toList, w.header "Sec-WebSocket-Version".toList,
      w.header "Sec-WebSocket-Key".toList with
  | some connection, some version, some key =>
    if isInfixIgnoringCase "Upgrade".toList connection ∧ version = "13".toList ∧ key ≠ [] then
      some key
    else none
  | _, _, _ => none

/-- The handler an upgrade is completed with, when libmicrohttpd plays along. -/
def upgradeHandler (key url : Str) : Option Nat :=
  (env.wsHandlers.lookup url).filter fun _ => env.createsUpgrade && env.acceptsKey key

/-- What `try_handle` queues; it declines with `none`. -/
def upgradeAnswer (w : WireRequest) (url : Str) : Option Queued :=
  if env.config.haveWebsocket && upgradeRequested w then
    match validateWebsocketHandshake w with
    | none => some .badHandshake
    | some key => (upgradeHandler env key url).map fun handler => .upgrade handler key
  else none

def tryWsUpgrade (w : WireRequest) : DispatchM (Option MhdResult) := do
  let conn ← getConn
  match upgradeAnswer env w conn.standardizedUrl with
  | none => pure none
  | some what => do
    let result ← mhdQueue env what
    pure (some result)

def resolveResourceForRequest : DispatchM (Option Handler) := do
  let st ← readHooks env
  let needPathTemplate := st.bus.hasHooksFor .routeResolved || st.bus.hasHooksFor .beforeHandler
  let conn ← getConn
  match (env.routes.lookupV2 env.rx env.cache conn.methodEnum conn.standardizedUrl).2 with
  | none => pure none
  | some result => do
    setConn fun c => { c with
      request := c.request.map fun r => { r with setArgs := r.setArgs ++ result.capturedParams }
      matchedPathTemplate :=
        if needPathTemplate then c.standardizedUrl else c.matchedPathTemplate
      matchedIsPrefix := if needPathTemplate then result.entry.isPrefix else c.matchedIsPrefix }
    pure (some result.entry.handler)

def handlerExceptionChains (server route : Bool) (resource : Option Handler) (exception : Exc) :
    DispatchM (Option HttpResponse) := do
  let sc ← gatedChain server (fireHandlerException env exception exception.message)
  match sc with
  | some r => pure (some r)
  | none => gatedChain route (fireRouteIfSome env resource .handlerException
      fun _ => .handlerException exception exception.message)

def answerException (exception : Exc) : DispatchM Unit := do
  let conn ← getConn
  let route ← routeGate env conn.resourceWeak .handlerException
  let st ← readHooks env
  let server := st.bus.hasHooksFor .handlerException || st.bus.handlerExceptionAlias
  if server || route then do
    let sc ← handlerExceptionChains env server route conn.resourceWeak exception
    emplace (sc.getD .empty500)
  else do
    let r ← runInternalErrorHandlerSafely env exception.message
    emplace r

def handleDispatchException (exception : Exc) : DispatchM Unit := do
  emit (.dispatchException exception.message)
  answerException env exception

def dispatchThrewText : Exc → Str
  | .other => "dispatch: handler threw unknown exception".toList
  | e => "dispatch: handler threw std::exception: ".toList ++ e.message

def renderResource (hrm : Handler) : DispatchM Unit := do
  let conn ← getConn
  let r ← callUser env (.render hrm conn.methodEnum conn.req)
  emplace r
  if r.statusCode = -1 then do
    let page ← runInternalErrorHandlerSafely env "handler returned null response".toList
    emplace page
  else pure ()

def refuseMethod (hrm : Handler) : DispatchM Unit := do
  let page ← methodNotAllowedPage env
  emplace page
  let allowed ← readAllowed env hrm
  let page ← raise (addAllow page (formatAllowHeader allowed))
  emplace page

def dispatchBody (hrm : Handler) : DispatchM Unit := do
  setConn fun c => { c with pp := false }
  let conn ← getConn
  let allowed ← readAllowed env hrm
  if allowed.contains conn.methodEnum then renderResource env hrm else refuseMethod env hrm

def dispatchResourceHandler (hrm : Handler) : DispatchM Unit :=
  tryCatch (dispatchBody env hrm) fun e => do
    logDispatchError env (dispatchThrewText e)
    handleDispatchException env e

/-- `route_has_hook_table_` and the weak pointer for later consumers. -/
def stampResource (hrm : Handler) : DispatchM Unit := do
  let st ← readHooks env
  let hasTable := (st.hookTableRaw hrm).isSome
  setConn fun c => { c with
    routeHasHookTable := hasTable
    resourceWeak :=
      if hasTable || st.bus.hasHooksFor .requestCompleted then some hrm else c.resourceWeak }

def emplaceNotFound : DispatchM Unit := do
  let conn ← getConn
  match conn.response with
  | some _ => pure ()
  | none => do
    let page ← notFoundPage env
    emplace page

/-- The rest of `finalize_answer` on a route hit. -/
def answerFound (hrm : Handler) : DispatchM MhdResult := do
  stampResource env hrm
  fireRouteResolvedGated env (some hrm)
  let answered ← fireBeforeHandlerGated env hrm
  if answered then materializeAndQueueResponse env (some hrm)
  else do
    dispatchResourceHandler env hrm
    fireAfterHandlerGated env (some hrm)
    materializeAndQueueResponse env (some hrm)

/-- The rest of `finalize_answer` on a route miss. -/
def answerMissing : DispatchM MhdResult := do
  fireRouteResolvedGated env none
  emplaceNotFound env
  fireAfterHandlerGated env none
  materializeAndQueueResponse env none

def answerRouted : DispatchM MhdResult := do
  let hrm ← resolveResourceForRequest env
  match hrm with
  | some hrm => answerFound env hrm
  | none => answerMissing env

def finalizeAnswer (w : WireRequest) : DispatchM MhdResult := do
  let upgraded ← tryWsUpgrade env w
  match upgraded with
  | some result => pure result
  | none => do
    let conn ← getConn
    if conn.skipHandler then materializeAndQueueResponse env none else answerRouted env

/-- The `method_enum` and `has_body` columns of `resolve_method_callback`. -/
def resolveMethodCallback (method : Str) : HttpMethod × Bool :=
  match allMethods.find? fun m => m.wireToken = method with
  | some m => (m, m = .post || m = .put || m = .del || m = .patch)
  | none => (.count_, false)

def shortCircuit (r : HttpResponse) : DispatchM Unit :=
  setConn fun c => { c with response := some r, skipHandler := true, pp := false }

def startsIgnoringCase (lead text : Str) : Bool := (foldCase lead).isPrefixOf (foldCase text)

def wantsPostProcessor (w : WireRequest) : Bool :=
  env.config.postProcessEnabled && (w.header "Content-Type".toList).any fun encoding =>
    startsIgnoringCase "application/x-www-form-urlencoded".toList encoding ||
      startsIgnoringCase "multipart/form-data".toList encoding

def attachPostProcessor (w : WireRequest) : DispatchM Unit :=
  setConn fun c =>
    if c.hasBody then { c with
      request := c.request.map fun r =>
        { r with contentSizeLimit := env.config.contentSizeLimit }
      pp := wantsPostProcessor env w && env.createsPostProcessor }
    else c

def requestsAnswerFirstStep (w : WireRequest) : DispatchM MhdResult := do
  setConn fun c => { c with request := some {} }
  let gate ← serverGate env .requestReceived
  let sc ← gatedChain gate (fireServer env .requestReceived fun _ => .requestReceived)
  match sc with
  | some r => do
    shortCircuit r
    pure .yes
  | none => do
    attachPostProcessor env w
    pure .yes

/-- `fire_and_maybe_short_circuit_body_chunk`, up to what a response does. -/
def fireBodyChunk (uploadData : Str) : DispatchM (Option HttpResponse) := do
  let conn ← getConn
  setConn fun c => { c with bodyBytesSeen := (c.bodyBytesSeen + uploadData.length) % UInt64.size }
  fireServer env .bodyChunk fun _ => .bodyChunk uploadData conn.bodyBytesSeen

/-- `grow_content`, unless the post processor takes the data alone. -/
def growContent (uploadData : Str) : DispatchM Unit :=
  setConn fun c =>
    if !c.pp || env.config.putProcessedDataToContent then { c with
      request := c.request.map fun r =>
        { r with content := (r.content ++ uploadData).take r.contentSizeLimit } }
    else c

def completeRequest (w : WireRequest) : DispatchM MhdResult := do
  setConn fun c => { c with
    request := c.request.map fun r =>
      { r with path := c.standardizedUrl, method := w.method, version := w.version } }
  finalizeAnswer env w

def receiveChunk (uploadData : Str) : DispatchM MhdResult := do
  let gate ← serverGate env .bodyChunk
  let sc ← gatedChain gate (fireBodyChunk env uploadData)
  match sc with
  | some r => do
    shortCircuit r
    pure .yes
  | none => do
    growContent env uploadData
    pure .yes

def requestsAnswerSecondStep (w : WireRequest) (uploadData : Str) : DispatchM MhdResult :=
  if uploadData = [] then completeRequest env w
  else do
    let conn ← getConn
    if !conn.hasBody || conn.skipHandler then pure .yes else receiveChunk env uploadData

def answerToConnection (w : WireRequest) (uploadData : Str) : DispatchM MhdResult := do
  let conn ← getConn
  match conn.request with
  | some _ => requestsAnswerSecondStep env w uploadData
  | none => do
    setConn fun c => { c with
      standardizedUrl := dispatchPath env.config.unescaper w.url
      methodEnum := (resolveMethodCallback w.method).1
      hasBody := (resolveMethodCallback w.method).2 }
    requestsAnswerFirstStep env w

def deliver (w : WireRequest) : List Str → DispatchM Unit
  | [] => pure ()
  | chunk :: rest => do
    let _ ← answerToConnection env w chunk
    deliver w rest

def receive (w : WireRequest) : DispatchM Unit := do
  let _ ← answerToConnection env w []
  deliver env w w.chunks

/-- A whole request. Every call before the last one returns `MHD_YES`. -/
def serve (w : WireRequest) : DispatchM MhdResult := do
  receive env w
  answerToConnection env w []

/-- The completion callback. libmicrohttpd says how the request ended. -/
def requestCompleted (succeeded : Bool) : DispatchM Unit := fireRequestCompletedGated env succeeded

def serveToCompletion (w : WireRequest) (succeeded : Bool) : DispatchM MhdResult := do
  let result ← serve env w
  requestCompleted env succeeded
  pure result

end
end HttpServer
