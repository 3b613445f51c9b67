import HttpServer.ShortCircuit

/-!
A request on a server without hooks. Every gate is closed, so nothing comes
between the request as it was delivered and the resource it is routed to, and
the resource's answer goes to the queue as it is. What is queued in place of a
response that libmicrohttpd cannot be given is a 500 page.
-/
namespace HttpServer
open Effect

structure Env.Hookless (env : Env) : Prop where
  constructed : ∀ h, env.hooksAt h = .constructed env.config
  noAuth : env.config.authHandler = false
  noRefusal : env.config.methodNotAllowedHandler = false
  noMissing : env.config.notFoundHandler = false
  noError : env.config.internalErrorHandler = false
  noAccessLog : env.config.logAccess = false

def Blind (P : Session → Prop) : Prop :=
  ∀ s : Session, P s → P { s with history := s.history ++ [.sharedRead] }

namespace Env.Hookless
variable {env : Env} (hookless : env.Hookless)
include hookless

theorem bus_empty (h : History) : (env.hooksAt h).bus = HookBus.empty := by
  rw [hookless.constructed]
  simp [HookState.constructed, installDefaultAliasHooks, hookless.noAuth, hookless.noRefusal,
    hookless.noMissing, hookless.noError, hookless.noAccessLog]

theorem server_shut (h : History) (phase : HookPhase) :
    (env.hooksAt h).bus.hasHooksFor phase = false := by
  rw [hookless.bus_empty]
  rfl

theorem no_table (h : History) (resource : Handler) :
    (env.hooksAt h).hookTableRaw resource = none := by
  rw [hookless.constructed]
  rfl

theorem route_shut (h : History) (resource : Option Handler) (phase : HookPhase) :
    ((resource.bind (env.hooksAt h).hookTableRaw).map fun t => t.gate phase).getD false = false := by
  cases resource with
  | none => rfl
  | some resource =>
    rw [Option.bind_some, hookless.no_table]
    rfl

section
variable {P : Session → Prop} {E : Exc → Session → Prop} (blind : Blind P)
include blind

theorem serverGate (phase : HookPhase) :
    Spec P (serverGate env phase) (fun gate s => gate = false ∧ P s) E :=
  spec_readFixed env _ (fun h => hookless.server_shut h phase) blind

theorem routeGate (resource : Option Handler) (phase : HookPhase) :
    Spec P (routeGate env resource phase) (fun gate s => gate = false ∧ P s) E :=
  spec_readFixed env _ (fun h => hookless.route_shut h resource phase) blind

theorem fireRouteResolvedGated (hrm : Option Handler) :
    Spec P (fireRouteResolvedGated env hrm) (fun _ => P) E := by
  refine spec_bind (hookless.serverGate blind _) fun server => spec_assume fun shut => ?_
  rw [shut]
  exact spec_pure fun _ start => start

theorem fireBeforeHandlerGated (hrm : Handler) :
    Spec P (fireBeforeHandlerGated env hrm) (fun answered s => answered = false ∧ P s) E := by
  refine spec_bind (hookless.serverGate blind _) fun server => spec_assume fun serverShut => ?_
  refine spec_bind (hookless.routeGate blind _ _) fun route => spec_assume fun routeShut => ?_
  rw [serverShut, routeShut]
  exact spec_pure fun _ start => ⟨rfl, start⟩

theorem fireAfterHandlerGated (resource : Option Handler) :
    Spec P (fireAfterHandlerGated env resource) (fun _ => P) E := by
  refine spec_bind (hookless.serverGate blind _) fun server => spec_assume fun serverShut => ?_
  refine spec_bind (hookless.routeGate blind _ _) fun route => spec_assume fun routeShut => ?_
  refine spec_bind spec_getConn_frame fun conn => ?_
  rw [serverShut, routeShut]
  exact spec_pure fun _ start => start

end

end Env.Hookless

structure Waiting (s : Session) : Prop where
  quiet : ∀ e ∈ s.history, e.kind = .sharedRead
  open_ : s.conn.skipHandler = false ∧ s.conn.response = none

theorem quiet_read {h : History} (quiet : ∀ e ∈ h, e.kind = .sharedRead) :
    ∀ e ∈ h ++ [.sharedRead], e.kind = .sharedRead := by
  intro e listed
  rcases List.mem_append.mp listed with old | new
  · exact quiet e old
  · rw [List.mem_singleton.mp new]
    rfl

theorem blind_waiting : Blind Waiting := fun _ waiting => ⟨quiet_read waiting.quiet, waiting.open_⟩

section
variable {env : Env} {w : WireRequest} {E : Exc → Session → Prop}

theorem waiting_setConn {f : Conn → Conn}
    (keeps : ∀ c, (f c).skipHandler = c.skipHandler ∧ (f c).response = c.response) :
    Spec Waiting (setConn f) (fun _ => Waiting) E :=
  spec_modify fun s waiting => ⟨waiting.quiet, (keeps s.conn).1.trans waiting.open_.1,
    (keeps s.conn).2.trans waiting.open_.2⟩

theorem waiting_gated (hookless : env.Hookless) (phase : HookPhase)
    {chain : DispatchM (Option HttpResponse)} {f : Conn → Conn}
    (keeps : ∀ c, (f c).skipHandler = c.skipHandler ∧ (f c).response = c.response) :
    Spec Waiting (do
      let gate ← serverGate env phase
      let sc ← gatedChain gate chain
      match sc with
      | some r => do
        shortCircuit r
        pure MhdResult.yes
      | none => do
        setConn f
        pure MhdResult.yes) (fun _ => Waiting) E := by
  refine spec_bind (hookless.serverGate blind_waiting _) fun gate => spec_assume fun shut => ?_
  rw [shut]
  refine spec_bind (M := fun sc s => sc = none ∧ Waiting s)
    (spec_pure fun _ waiting => ⟨rfl, waiting⟩) fun sc => spec_assume fun none_ => ?_
  rw [none_]
  exact spec_bind (waiting_setConn keeps) fun _ => spec_pure fun _ waiting => waiting

theorem waiting_firstStep (hookless : env.Hookless) :
    Spec Waiting (requestsAnswerFirstStep env w) (fun _ => Waiting) E := by
  refine spec_bind (waiting_setConn fun _ => ⟨rfl, rfl⟩) fun _ => ?_
  refine waiting_gated hookless .requestReceived fun c => ?_
  split
  · exact ⟨rfl, rfl⟩
  · exact ⟨rfl, rfl⟩

theorem waiting_receiveChunk (hookless : env.Hookless) (chunk : Str) :
    Spec Waiting (receiveChunk env chunk) (fun _ => Waiting) E := by
  refine waiting_gated hookless .bodyChunk fun c => ?_
  split
  · exact ⟨rfl, rfl⟩
  · exact ⟨rfl, rfl⟩

theorem waiting_firstCall (hookless : env.Hookless) :
    Spec (fun s => Waiting s ∧ s.conn.request = none) (answerToConnection env w [])
      (fun _ => Waiting) E := by
  refine spec_answer_first env w (fun s start => start.2) ?_
  refine spec_bind (M := fun _ => Waiting) (spec_modify fun s start => ⟨start.1.quiet,
    start.1.open_⟩) fun _ => waiting_firstStep hookless

theorem waiting_chunkCall (hookless : env.Hookless) {chunk : Str} (sized : chunk ≠ []) :
    Spec (fun s => Waiting s ∧ s.conn.arrived = w.arrives env.config)
      (answerToConnection env w chunk)
      (fun _ s => Waiting s ∧ s.conn.arrived = w.arrives env.config) E := by
  refine spec_both ?_ (spec_adapt (spec_chunkCall env w ReceiveProof.undisturbed_true sized)
    (fun _ start => ⟨trivial, start.2⟩) fun _ _ post => post.2)
  refine spec_answer_second env w (fun s start => start.2) ?_
  unfold requestsAnswerSecondStep
  rw [if_neg sized]
  refine spec_bind (spec_pre spec_getConn_frame fun _ start => start.1) fun conn => ?_
  split
  · exact spec_pure fun _ waiting => waiting
  · exact waiting_receiveChunk hookless chunk

theorem waiting_receive (hookless : env.Hookless) :
    Spec (fun s => s = {}) (receive env w)
      (fun _ s => Waiting s ∧ s.conn.arrived = w.arrives env.config) E := by
  have deliver (chunks : List Str) (sized : ∀ c ∈ chunks, c ≠ []) :
      Spec (fun s => Waiting s ∧ s.conn.arrived = w.arrives env.config) (deliver env w chunks)
        (fun _ s => Waiting s ∧ s.conn.arrived = w.arrives env.config) E := by
    induction chunks with
    | nil => exact spec_pure fun _ start => start
    | cons chunk rest ih =>
      refine spec_bind (waiting_chunkCall hookless (sized chunk List.mem_cons_self)) fun _ => ?_
      exact ih fun c listed => sized c (List.mem_cons_of_mem _ listed)
  have start : Spec (fun s => s = {}) (answerToConnection env w []) (fun _ s => Waiting s ∧
      s.conn.arrived = w.arrives env.config) E := by
    refine spec_both (spec_pre (waiting_firstCall hookless) ?_)
      (spec_adapt (spec_firstCall env w ReceiveProof.undisturbed_true) ?_ fun _ _ post => post.2)
    · rintro _ rfl
      exact ⟨⟨fun _ listed => (List.not_mem_nil listed).elim, rfl, rfl⟩, rfl⟩
    · rintro _ rfl
      exact ⟨trivial, rfl⟩
  exact spec_bind start fun _ => deliver w.chunks w.nonempty

end

def WireRequest.completed (w : WireRequest) (env : Env) : Request :=
  { (after (receive env w) {}).conn.req with
    path := w.dispatched env.config, method := w.method, version := w.version }

def Request.resolved (req : Request) (captures : Captures) : Request :=
  { req with setArgs := req.setArgs ++ captures }

structure Completed (env : Env) (w : WireRequest) (s : Session) : Prop where
  waiting : Waiting s
  addressed : s.conn.Addressed w env.config
  request : s.conn.request = some (w.completed env)

structure Routed (m : HttpMethod) (req : Request) (s : Session) : Prop where
  waiting : Waiting s
  method : s.conn.methodEnum = m
  request : s.conn.request = some req

theorem blind_routed (m : HttpMethod) (req : Request) : Blind (Routed m req) :=
  fun _ routed => ⟨blind_waiting _ routed.waiting, routed.method, routed.request⟩

section
variable {env : Env} {w : WireRequest} {Q : MhdResult → Session → Prop} {E : Exc → Session → Prop}

theorem hookless_serve (hookless : env.Hookless)
    (last : Spec (Completed env w) (finalizeAnswer env w) Q E) :
    Spec (fun s => s = {}) (serve env w) Q E := by
  have delivered : Spec (fun s => s = {}) (receive env w) (fun _ s => s = after (receive env w) {} ∧
      Waiting s ∧ s.conn.arrived = w.arrives env.config) E := by
    refine spec_both (fun s start => ⟨fun _ _ => by rw [start], fun e stop => ?_⟩)
      (waiting_receive hookless)
    have never := waiting_receive (w := w) (E := fun _ _ => False) hookless s start
    exact (never.2 e stop).elim
  refine spec_bind delivered fun _ => ?_
  refine spec_answer_second env w (fun s start => start.2.2) ?_
  refine spec_bind (M := fun _ => Completed env w) (spec_modify fun s start => ?_) fun _ => last
  obtain ⟨whole, waiting, arrived⟩ := start
  obtain ⟨req, present⟩ := Conn.request_of_arrived arrived
  have url : s.conn.standardizedUrl = w.dispatched env.config := congrArg (·.1.2) arrived
  have method : s.conn.methodEnum = (resolveMethodCallback w.method).1 := congrArg (·.2) arrived
  refine ⟨⟨waiting.quiet, waiting.open_⟩, ⟨url, method⟩, ?_⟩
  simp [WireRequest.completed, ← whole, Conn.req, present, ← url]

/-- Between the WebSocket check and the hand-over a route hit or miss is all that
    happens. -/
theorem hookless_answer (hookless : env.Hookless) {hrm : Option Handler} {m : HttpMethod}
    {req : Request} {A : Session → Prop} (blind : Blind A)
    (resolve : Spec (Completed env w) (resolveResourceForRequest env)
      (fun found s => found = hrm ∧ Routed m req s) E)
    (dispatch : ∀ resource, hrm = some resource →
      Spec (Routed m req) (dispatchResourceHandler env resource) (fun _ => A) E)
    (missing : hrm = none → Spec (Routed m req) (emplaceNotFound env) (fun _ => A) E)
    (queue : ∀ resource, Spec A (materializeAndQueueResponse env resource) Q E) :
    AnswerProof env (fun found => found = hrm)
      ⟨Completed env w, Routed m req, Routed m req, Routed m req, fun _ => False, Routed m req, A, A⟩
      Q E where
  resolve := spec_pre resolve fun _ start => start.1
  missed _ _ routed := routed
  stamp resource _ := by
    refine spec_bind (M := fun _ => Routed m req)
      (spec_readHooks env fun s routed => blind_routed m req s routed) fun st => ?_
    exact spec_modify fun s routed =>
      ⟨⟨routed.waiting.quiet, routed.waiting.open_⟩, routed.method, routed.request⟩
  resolved found := hookless.fireRouteResolvedGated (blind_routed m req) found
  before resource _ := by
    refine spec_post (hookless.fireBeforeHandlerGated (blind_routed m req) resource) ?_
    rintro answered s ⟨rfl, routed⟩
    exact routed
  dispatch resource here := dispatch resource here.symm
  missing here := missing here.symm
  edited found _ := hookless.fireAfterHandlerGated blind found
  skipped := by
    rintro s ⟨start, skips⟩
    rw [start.waiting.open_.1] at skips
    cases skips
  early _ _ := fun _ never => never.elim
  queue resource _ := queue resource

end

/-- The response is queued as it is, or a 500 page or nothing in its place. -/
structure Delivered (env : Env) (q : HttpResponse) (s : Session) : Prop where
  sent : q.Sendable env → queueOf s = [queuedAs env q]
  replaced : ¬q.Sendable env → ∀ r, queueOf s = [queuedAs env r] → r ≠ q ∧ r.statusCode = 500

theorem queuedAs_injective {env : Env} {q r : HttpResponse} (same : queuedAs env q = queuedAs env r) :
    q = r := by
  obtain ⟨digest, first⟩ := queuedAs_response env q
  obtain ⟨digest', second⟩ := queuedAs_response env r
  rw [first, second] at same
  injection same

section
variable {env : Env} {E : Exc → Session → Prop}

theorem spec_errorPage (hookless : env.Hookless) {P : Session → Prop} (msg : Str) :
    Spec P (runInternalErrorHandlerSafely env msg) (fun r s => r.statusCode = 500 ∧ P s) E := by
  refine spec_tryCatch (M := fun _ _ => False) (spec_bind spec_getConn_frame fun conn => ?_)
    fun e s impossible => impossible.elim
  rw [if_neg (by simp [hookless.noError])]
  split
  · exact spec_pure fun s start => ⟨rfl, start⟩
  · exact spec_pure fun s start => ⟨rfl, start⟩

def KeptOr500 (q : HttpResponse) (s : Session) : Prop :=
  ∃ r, (r = q ∨ r.statusCode = 500) ∧ s.conn.response = some r

variable {q : HttpResponse}

theorem keptOr500_rawOrForced500 (hookless : env.Hookless) :
    Spec (KeptOr500 q) (rawOrForced500 env) (fun _ => KeptOr500 q) E := by
  refine spec_rawOrForced500 (R := fun r => r.statusCode = 500) ?_
    (fun msg => spec_post (spec_errorPage hookless msg) fun _ _ page => page.1) rfl
    fun _ _ r status present => ⟨r, Or.inr status, present⟩
  exact spec_bind spec_getConn_frame fun conn => spec_pure fun _ start => start

theorem queued_keptOr500 (hookless : env.Hookless) (resource : Option Handler) :
    Spec (fun s => s.conn.response = some q ∧ queueOf s = [])
      (materializeAndQueueResponse env resource)
      (fun _ s => ∀ r, queueOf s = [queuedAs env r] → r = q ∨ r.statusCode = 500)
      fun _ s => ∀ r, queueOf s = [queuedAs env r] → r = q ∨ r.statusCode = 500 := by
  have nothing {s : Session} (same : queueOf s = []) :
      ∀ r, queueOf s = [queuedAs env r] → r = q ∨ r.statusCode = 500 := by
    intro r queued
    rw [same] at queued
    cases queued
  refine spec_bind (M := fun _ s => ∃ r, (r = q ∨ r.statusCode = 500) ∧
    (s.conn.response = some r ∧ queueOf s = [])) ?_ fun raw => spec_exists fun r =>
      spec_assume fun facts => ?_
  · refine spec_mono (spec_both (E := fun _ _ => False) (spec_pre (keptOr500_rawOrForced500 hookless)
      fun s start => ⟨q, Or.inl rfl, start.1⟩) (spec_pre (queue_calm (calm_rawOrForced500 env)
        (by decide) []) fun s start => start.2)) (fun _ start => start) ?_
      fun _ _ impossible => impossible.elim
    rintro raw s ⟨⟨r, facts, kept⟩, same⟩
    exact ⟨r, facts, kept, same⟩
  · cases raw with
    | false => exact spec_pure fun s start => nothing start.2
    | true =>
      refine spec_mono (queue_handOver resource) (fun _ start => start) ?_ fun e s raised =>
        nothing raised.2
      rintro result s ⟨-, queued⟩ r' same
      rw [queued] at same
      injection same with head
      rw [← queuedAs_injective head]
      exact facts

theorem delivered_queueResponse (hookless : env.Hookless) (resource : Option Handler) :
    Spec (fun s => s.conn.response = some q ∧ queueOf s = [])
      (materializeAndQueueResponse env resource) (fun _ => Delivered env q)
      fun _ => Delivered env q := by
  have combine {s : Session} (delivers : Delivers env q (q.Sendable env) [] s)
      (one : ∀ r, queueOf s = [queuedAs env r] → r = q ∨ r.statusCode = 500) :
      Delivered env q s := by
    obtain ⟨more, whole, sent, lost⟩ := delivers
    rw [List.nil_append] at whole
    refine ⟨fun sendable => whole.trans (sent sendable), fun unsendable r queued => ?_⟩
    obtain ⟨digest, form⟩ := queuedAs_response env r
    have other : r ≠ q := by
      rintro rfl
      exact lost unsendable digest (whole.symm.trans (queued.trans (by rw [form])))
    exact ⟨other, (one r queued).resolve_left other⟩
  exact spec_mono (spec_and (delivers_queueResponse resource) (queued_keptOr500 hookless resource))
    (fun _ start => start) (fun _ _ post => combine post.1 post.2)
    fun _ _ raised => combine raised.1 raised.2

end
end HttpServer
