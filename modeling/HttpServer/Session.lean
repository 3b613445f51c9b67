import HttpServer.AuthSkip
import HttpServer.HookBus
import HttpServer.HttpResponse
import HttpServer.Lib.Trace

/-!
What one request is served with: the connection context, the history of what
happened outside the library, and the environment that decides it. Everything
the library does not decide is an answer of the environment to the history so
far: what user code does when it is called, what libmicrohttpd accepts, and
what the shared tables hold at the moment they are read. A read of the hook
tables or of a resource's method mask is an event of its own, so that two reads
with nothing between them may still see different tables.
-/
namespace HttpServer
open Effect

/-- The members of `webserver_config` that dispatch reads. A handler is present
    or null here; what it does is the environment's. -/
structure WebserverConfig where
  authHandler : Bool := false
  authSkipPathsNormalized : List Str := []
  methodNotAllowedHandler : Bool := false
  notFoundHandler : Bool := false
  internalErrorHandler : Bool := false
  logError : Bool := false
  logAccess : Bool := false
  exposeExceptionMessages : Bool := false
  postProcessEnabled : Bool := true
  putProcessedDataToContent : Bool := true
  contentSizeLimit : Nat := UInt64.size - 1
  unescaper : Option (Str → Str) := none
  digestOpaque : Str := []
  haveWebsocket : Bool := true
  haveDauth : Bool := true

/-- A request as it comes over the wire. libmicrohttpd delivers every chunk
    with a positive size; size zero ends the body. -/
structure WireRequest where
  url : Str
  method : Str
  version : Str
  headers : List (Str × Str)
  chunks : List Str
  nonempty : ∀ c ∈ chunks, c ≠ []

def foldCase (s : Str) : List Nat := s.map httpHeaderToupper

/-- `MHD_lookup_connection_value` in the header kind. -/
def WireRequest.header (w : WireRequest) (key : Str) : Option Str :=
  (w.headers.find? fun h => foldCase h.1 = foldCase key).map (·.2)

/-- `http_request`, as far as dispatch writes it. `setArgs` are the `set_arg`
    calls that replay the captures, in order. -/
structure Request where
  path : Str := []
  method : Str := []
  version : Str := []
  content : Str := []
  contentSizeLimit : Nat := UInt64.size - 1
  setArgs : List (Str × Str) := []
  deriving DecidableEq, Repr

/-- `connection_context`. The render callback is the one `methodEnum` names:
    both are set together, and the sentinel stands for the null callback. -/
structure Conn where
  standardizedUrl : Str := []
  methodEnum : HttpMethod := .count_
  request : Option Request := none
  response : Option HttpResponse := none
  hasBody : Bool := false
  skipHandler : Bool := false
  bodyBytesSeen : Nat := 0
  pp : Bool := false
  matchedPathTemplate : Str := []
  matchedIsPrefix : Bool := false
  resourceWeak : Option Handler := none
  routeHasHookTable : Bool := false
  deriving DecidableEq, Repr

/-- `*conn->request`, which every caller reaches with a request in place. -/
def Conn.req (c : Conn) : Request := c.request.getD {}

structure RouteDescriptor where
  pathTemplate : Str
  methods : MethodSet
  isPrefix : Bool
  deriving DecidableEq, Repr

inductive HookCtx where
  | requestReceived
  | bodyChunk (chunk : Str) (offset : Nat)
  | routeResolved (matched : Option RouteDescriptor) (resource : Option Handler)
  | beforeHandler (matched : Option RouteDescriptor) (method : HttpMethod)
      (resource : Option Handler)
  | handlerException (exception : Exc) (message : Str)
  | afterHandler (response : HttpResponse)
  | responseSent (response : HttpResponse) (status : Int) (bytesQueued : Nat)
  | requestCompleted (response : Option HttpResponse) (succeeded : Bool)
  deriving DecidableEq, Repr

def HookCtx.phase : HookCtx → HookPhase
  | .requestReceived => .requestReceived
  | .bodyChunk .. => .bodyChunk
  | .routeResolved .. => .routeResolved
  | .beforeHandler .. => .beforeHandler
  | .handlerException .. => .handlerException
  | .afterHandler .. => .afterHandler
  | .responseSent .. => .responseSent
  | .requestCompleted .. => .requestCompleted

inductive HookScope where
  | server | route
  deriving DecidableEq, Repr

structure HookCall where
  scope : HookScope
  fn : HookFn
  request : Option Request
  ctx : HookCtx
  deriving DecidableEq, Repr

inductive HookOutcome where
  | pass
  | respond (r : HttpResponse)
  | threw (e : Exc)
  deriving DecidableEq, Repr

/-- Who calls a configured handler: the hook or slot installed for it, or the
    error page. -/
inductive CallSite where
  | hookAlias | errorPage
  deriving DecidableEq, Repr

inductive UserCall where
  | authHandler (request : Request)
  | notFoundHandler (request : Request)
  | methodNotAllowedHandler (site : CallSite) (request : Request)
  | internalErrorHandler (site : CallSite) (request : Request) (message : Str)
  | render (resource : Handler) (method : HttpMethod) (request : Request)
  | logError (message : Str)
  | logAccess (line : Str)
  deriving DecidableEq, Repr

@[reducible] def UserCall.Answer : UserCall → Type
  | .authHandler _ => Option HttpResponse
  | .logError _ => Unit
  | .logAccess _ => Unit
  | _ => HttpResponse

inductive MhdResult where
  | yes | no
  deriving DecidableEq, Repr

structure DigestArgs where
  realm : Str
  opaqueText : Str
  domain : Option Str
  algorithm : DigestAlgorithm
  qopAuth : Bool
  signalStale : Bool
  userhashSupport : Bool
  preferUtf8 : Bool
  deriving DecidableEq, Repr

inductive Queued where
  | response (r : HttpResponse) (digest : Option DigestArgs)
  | badHandshake
  | upgrade (handler : Nat) (key : Str)
  deriving DecidableEq, Repr

/-- `dispatchException` marks the entry of `handle_dispatch_exception` and
    `decorate` that of `decorate_mhd_response`; the others are calls out of the
    library, recorded when they are over. -/
inductive Event where
  | sharedRead
  | hook (call : HookCall) (outcome : HookOutcome)
  | called (call : UserCall) (answer : Except Exc call.Answer)
  | dispatchException (message : Str)
  | decorate (response : HttpResponse)
  | queue (what : Queued) (accepted : Bool)

abbrev History := List Event

/-- The method mask of a resource; no mutator sets the sentinel's bit. -/
structure AllowedMethods where
  mask : MethodSet
  noSentinel : mask.contains .count_ = false

def AllowedMethods.all : AllowedMethods := ⟨.setAll, by decide⟩

structure Env where
  config : WebserverConfig
  hooksAt : History → HookState
  allowedAt : History → Handler → AllowedMethods
  rx : RegexEngine
  routes : RouteTable
  cache : RouteCache
  wsHandlers : List (Str × Nat)
  runHook : History → HookCall → HookOutcome
  editResponse : History → HookCall → HttpResponse → HttpResponse
  observe : History → HookCall → Option Exc
  answer : History → (call : UserCall) → Except Exc call.Answer
  creates : ResponseBody → Bool
  createsUpgrade : Bool
  createsPostProcessor : Bool
  acceptsKey : Str → Bool
  accepts : Queued → Bool
  tmLeft : TmLeft

structure Session where
  conn : Conn := {}
  history : History := []

abbrev DispatchM := EStateM Exc Session

def emit (e : Event) : DispatchM Unit := modify fun s => { s with history := s.history ++ [e] }

def setConn (f : Conn → Conn) : DispatchM Unit := modify fun s => { s with conn := f s.conn }

def getConn : DispatchM Conn := do
  let s ← get
  pure s.conn

def raise {α : Type} : Except Exc α → DispatchM α
  | .ok a => pure a
  | .error e => throw e

def emplace (r : HttpResponse) : DispatchM Unit :=
  setConn fun c => { c with response := some r }

section
variable (env : Env)

def readHooks : DispatchM HookState := do
  let s ← get
  emit .sharedRead
  pure (env.hooksAt s.history)

def readAllowed (resource : Handler) : DispatchM MethodSet := do
  let s ← get
  emit .sharedRead
  pure (env.allowedAt s.history resource).mask

def callUser (call : UserCall) : DispatchM call.Answer := do
  let s ← get
  emit (.called call (env.answer s.history call))
  raise (env.answer s.history call)

/-- `log_dispatch_error`: a logger that throws is ignored. -/
def logDispatchError (msg : Str) : DispatchM Unit :=
  if env.config.logError then tryCatch (callUser env (.logError msg)) fun _ => pure ()
  else pure ()

end

inductive EventKind where
  | sharedRead
  | hook (phase : HookPhase)
  | authHandler
  | notFoundHandler
  | methodNotAllowedHandler (site : CallSite)
  | internalErrorHandler (site : CallSite)
  | render
  | logError
  | logAccess
  | dispatchException
  | decorate
  | queue
  deriving DecidableEq, Repr

def UserCall.kind : UserCall → EventKind
  | .authHandler _ => .authHandler
  | .notFoundHandler _ => .notFoundHandler
  | .methodNotAllowedHandler site _ => .methodNotAllowedHandler site
  | .internalErrorHandler site _ _ => .internalErrorHandler site
  | .render .. => .render
  | .logError _ => .logError
  | .logAccess _ => .logAccess

def Event.kind : Event → EventKind
  | .sharedRead => .sharedRead
  | .hook call _ => .hook call.ctx.phase
  | .called call _ => call.kind
  | .dispatchException _ => .dispatchException
  | .decorate _ => .decorate
  | .queue _ _ => .queue

def Conn.apart (c : Conn) : Conn := { c with response := none }

/-- The history goes on by events of the given kinds, and the part of the
    connection that `view` shows is the same. -/
def Extends {β : Type} (view : Conn → β) (kinds : EventKind → Prop) (s t : Session) : Prop :=
  Trace.Grows Session.history (fun e => kinds e.kind) s t ∧ view t.conn = view s.conn

section
variable {β : Type} {view : Conn → β} {kinds : EventKind → Prop}

instance : Std.Refl (Extends view kinds) := ⟨fun s => ⟨refl_of _ s, rfl⟩⟩

instance : IsTrans Session (Extends view kinds) := by
  constructor
  rintro s t u ⟨early, first⟩ ⟨late, second⟩
  exact ⟨trans_of _ early late, second.trans first⟩

end

def EmitsOnly {α β : Type} (view : Conn → β) (kinds : EventKind → Prop) (x : DispatchM α) : Prop :=
  Steps (Extends view kinds) x

namespace EmitsOnly
variable {α β γ : Type} {view : Conn → γ} {kinds more : EventKind → Prop} {x : DispatchM α}

theorem mono (emits : EmitsOnly view kinds x) (weaker : ∀ k, kinds k → more k) :
    EmitsOnly view more x :=
  fun s => ⟨(emits s).1.mono fun e => weaker e.kind, (emits s).2⟩

theorem weaken {less : Conn → β} (emits : EmitsOnly view kinds x)
    (blind : ∀ c d : Conn, view c = view d → less c = less d) : EmitsOnly less kinds x :=
  fun s => ⟨(emits s).1, blind _ _ (emits s).2⟩

theorem pure (a : α) : EmitsOnly view kinds (pure a) := steps_pure a

theorem throw (e : Exc) : EmitsOnly view kinds (throw e : DispatchM α) := steps_throw e

theorem get : EmitsOnly view kinds (get : DispatchM Session) := steps_get

theorem raise (result : Except Exc α) : EmitsOnly view kinds (raise result) := by
  cases result with
  | ok a => exact steps_pure a
  | error e => exact steps_throw e

theorem bind {f : α → DispatchM β} (first : EmitsOnly view kinds x)
    (rest : ∀ a, EmitsOnly view kinds (f a)) : EmitsOnly view kinds (x >>= f) :=
  steps_bind first rest

theorem tryCatch {h : Exc → DispatchM α} (body : EmitsOnly view kinds x)
    (handler : ∀ e, EmitsOnly view kinds (h e)) : EmitsOnly view kinds (tryCatch x h) :=
  steps_tryCatch body handler

theorem emit {e : Event} (allowed : kinds e.kind) : EmitsOnly view kinds (emit e) := by
  intro s
  refine ⟨⟨[e], rfl, fun e' member => ?_⟩, rfl⟩
  rw [List.mem_singleton.mp member]
  exact allowed

theorem setConn {f : Conn → Conn} (keeps : ∀ c, view (f c) = view c) :
    EmitsOnly view kinds (setConn f) :=
  fun s => ⟨Trace.Grows.of_eq rfl, keeps s.conn⟩

theorem callUser (env : Env) (call : UserCall) (allowed : kinds call.kind) :
    EmitsOnly view kinds (callUser env call) :=
  bind get fun _ => bind (emit allowed) fun _ => raise _

end EmitsOnly

structure Calm {α β : Type} (view : Conn → β) (kinds : EventKind → Prop) (x : DispatchM α) :
    Prop where
  emits : EmitsOnly view kinds x
  returns : Returns x

namespace Calm
variable {α β γ : Type} {view : Conn → γ} {kinds more : EventKind → Prop} {x : DispatchM α}

theorem mono (calm : Calm view kinds x) (weaker : ∀ k, kinds k → more k) : Calm view more x :=
  ⟨calm.emits.mono weaker, calm.returns⟩

theorem weaken {less : Conn → β} (calm : Calm view kinds x)
    (blind : ∀ c d : Conn, view c = view d → less c = less d) : Calm less kinds x :=
  ⟨calm.emits.weaken blind, calm.returns⟩

theorem pure (a : α) : Calm view kinds (pure a) := ⟨.pure a, returns_pure a⟩

theorem get : Calm view kinds (get : DispatchM Session) := ⟨.get, returns_get⟩

theorem bind {f : α → DispatchM β} (first : Calm view kinds x)
    (rest : ∀ a, Calm view kinds (f a)) : Calm view kinds (x >>= f) :=
  ⟨.bind first.emits fun a => (rest a).emits, returns_bind first.returns fun a => (rest a).returns⟩

theorem tryCatch {h : Exc → DispatchM α} (body : EmitsOnly view kinds x)
    (handler : ∀ e, Calm view kinds (h e)) : Calm view kinds (tryCatch x h) :=
  ⟨.tryCatch body fun e => (handler e).emits, returns_tryCatch fun e => (handler e).returns⟩

theorem emit {e : Event} (allowed : kinds e.kind) : Calm view kinds (emit e) :=
  ⟨.emit allowed, returns_modify _⟩

theorem setConn {f : Conn → Conn} (keeps : ∀ c, view (f c) = view c) :
    Calm view kinds (setConn f) := ⟨.setConn keeps, returns_modify _⟩

theorem getConn : Calm view kinds getConn := bind get fun s => pure s.conn

theorem emplace (r : HttpResponse) : Calm Conn.apart kinds (emplace r) := setConn fun _ => rfl

theorem readHooks (env : Env) (allowed : kinds .sharedRead) : Calm view kinds (readHooks env) :=
  bind get fun _ => bind (emit allowed) fun _ => pure _

theorem readAllowed (env : Env) (resource : Handler) (allowed : kinds .sharedRead) :
    Calm view kinds (readAllowed env resource) :=
  bind get fun _ => bind (emit allowed) fun _ => pure _

theorem logDispatchError (env : Env) (msg : Str) (allowed : kinds .logError) :
    Calm view kinds (logDispatchError env msg) := by
  unfold HttpServer.logDispatchError
  split
  · exact tryCatch (.callUser env _ allowed) fun _ => pure ()
  · exact pure ()

end Calm

theorem calm_logDispatchError (env : Env) (msg : Str) :
    Calm Conn.apart (· = .logError) (logDispatchError env msg) := .logDispatchError env msg rfl

end HttpServer
