import HttpServer.HooklessRequest
import HttpServer.SharedRoute

/-!
The requests for a path that `route` has given handlers. A request comes to the
shim of the path, which runs the handler of the request's method, and a method
nobody has asked for is refused with the methods somebody has. The shim overrides
seven of the nine `render_*` functions; a handler for one of the other two is
kept and never run.
-/
namespace HttpServer
open Effect LruCache Run

namespace LambdaResource

/-- The methods whose `render_*` the shim overrides. -/
def overridden : List HttpMethod := [.get, .post, .put, .del, .patch, .options, .head]

def invoke (handle : Nat → Request → Except Exc HttpResponse) (shim : LambdaResource)
    (m : HttpMethod) (req : Request) : Except Exc HttpResponse :=
  match shim.slots m with
  | some h => handle h req
  | none =>
    .ok (.page "Internal Server Error: unregistered method slot invoked".toList 500)

/-- The render function of a method. `render_connect` and `render_trace` are those
    of `http_resource`, which return a default response. -/
def render (handle : Nat → Request → Except Exc HttpResponse) (shim : LambdaResource)
    (m : HttpMethod) (req : Request) : Except Exc HttpResponse :=
  if m ∈ overridden then shim.invoke handle m req else .ok {}

def runs (shim : LambdaResource) (m : HttpMethod) : Option Nat :=
  if m ∈ overridden then shim.slots m else none

theorem render_of_runs {handle : Nat → Request → Except Exc HttpResponse} {shim : LambdaResource}
    {m : HttpMethod} {h : Nat} (run : shim.runs m = some h) (req : Request) :
    shim.render handle m req = handle h req := by
  unfold runs at run
  unfold render invoke
  split at run
  · rename_i listed
    rw [if_pos listed, run]
  · cases run

end LambdaResource

def Event.handlerRun (shims : List LambdaResource) :
    Event → Option (Nat × Except Exc HttpResponse)
  | .called (.render (.lambda id) m _) answer =>
    ((shims.getD id LambdaResource.fresh).runs m).map fun h => (h, answer)
  | _ => none

def handlerRuns (shims : List LambdaResource) (h : History) : List (Nat × Except Exc HttpResponse) :=
  h.filterMap (Event.handlerRun shims)

/-- A server without hooks over a registry. Its cache holds what earlier lookups
    may have left there, and its shims render as theirs do; `handle` is what the
    handlers do with this request, before anything else was called for it. -/
structure Env.Serves (env : Env) (r : Registry) (handle : Nat → Request → Except Exc HttpResponse) :
    Prop where
  hookless : env.Hookless
  routes : env.routes = r.table
  cache : env.cache.Holds (RouteTable.Fresh env.rx env.routes)
  allowed : ∀ h id, (env.allowedAt h (.lambda id)).mask =
    (r.shims.getD id LambdaResource.fresh).methodsAllowed
  renders : ∀ h id m req, (∀ e ∈ h, e.kind = .sharedRead) →
    env.answer h (.render (.lambda id) m req) =
      (r.shims.getD id LambdaResource.fresh).render handle m req

def SoFar (shims : List LambdaResource) (ran : List (Nat × Except Exc HttpResponse)) (s : Session) :
    Prop :=
  handlerRuns shims s.history = ran ∧ queueOf s = []

def Holding (shims : List LambdaResource) (ran : List (Nat × Except Exc HttpResponse))
    (ready : Option HttpResponse) (s : Session) : Prop :=
  SoFar shims ran s ∧ ∀ q ∈ ready, s.conn.response = some q

structure Finished (env : Env) (shims : List LambdaResource)
    (ran : List (Nat × Except Exc HttpResponse)) (ready : Option HttpResponse) (s : Session) :
    Prop where
  ran : handlerRuns shims s.history = ran
  queued : ∀ q ∈ ready, Delivered env q s

section
variable {shims : List LambdaResource} {ran : List (Nat × Except Exc HttpResponse)} {e : Event}
  {α γ : Type} {view : Conn → γ} {kinds : EventKind → Prop} {x : DispatchM α}

theorem handlerRun_of_kind (other : e.kind ≠ .render) : e.handlerRun shims = none := by
  unfold Event.handlerRun
  split
  · exact absurd rfl other
  · rfl

theorem handlerRuns_append {h new : History} (quiet : ∀ e ∈ new, e.kind ≠ .render) :
    handlerRuns shims (h ++ new) = handlerRuns shims h := by
  have nothing : handlerRuns shims new = [] :=
    List.filterMap_eq_nil_iff.mpr fun e listed => handlerRun_of_kind (quiet e listed)
  unfold handlerRuns at nothing ⊢
  rw [List.filterMap_append, nothing, List.append_nil]

theorem handlerRuns_emit (h : History) (other : e.kind ≠ .render) :
    handlerRuns shims (h ++ [e]) = handlerRuns shims h :=
  handlerRuns_append fun _ listed => List.mem_singleton.mp listed ▸ other

theorem soFar_of_quiet (shims : List LambdaResource) {s : Session}
    (quiet : ∀ e ∈ s.history, e.kind = .sharedRead) :
    SoFar shims [] s := by
  have runs := @handlerRuns_append shims [] s.history fun e listed => by
    rw [quiet e listed]
    exact EventKind.noConfusion
  refine ⟨runs, filterMap_queued_of_quiet fun e listed => ?_⟩
  rw [quiet e listed]
  exact EventKind.noConfusion

theorem soFar_emits (emits : EmitsOnly view kinds x) (noRender : ¬kinds .render)
    (noQueue : ¬kinds .queue) :
    Spec (SoFar shims ran) x (fun _ => SoFar shims ran) fun _ => SoFar shims ran := by
  refine emits.history_spec (I := fun h => handlerRuns shims h = ran ∧
    h.filterMap Event.queued = []) fun h new soFar sound => ⟨?_, ?_⟩
  · rw [handlerRuns_append fun e listed kind => noRender (kind ▸ sound e listed)]
    exact soFar.1
  · rw [filterMap_queued_append fun e listed kind => noQueue (kind ▸ sound e listed)]
    exact soFar.2

theorem soFar_calm {E : Exc → Session → Prop} (calm : Calm view kinds x) (noRender : ¬kinds .render)
    (noQueue : ¬kinds .queue) : Spec (SoFar shims ran) x (fun _ => SoFar shims ran) E :=
  spec_of_returns (soFar_emits calm.emits noRender noQueue) calm.returns

theorem blind_holding (ready : Option HttpResponse) : Blind (Holding shims ran ready) := by
  rintro s ⟨⟨runs, queue⟩, kept⟩
  refine ⟨⟨?_, ?_⟩, kept⟩
  · rw [handlerRuns_emit s.history EventKind.noConfusion]
    exact runs
  · rw [queueOf_emit, queue]
    rfl

end

theorem spec_readAllowed {env : Env} {hrm : Handler} {mask : MethodSet} {P : Session → Prop}
    {E : Exc → Session → Prop} (always : ∀ h, (env.allowedAt h hrm).mask = mask) (blind : Blind P) :
    Spec P (readAllowed env hrm) (fun allowed s => allowed = mask ∧ P s) E := by
  refine spec_get_bind fun now => ?_
  rw [always]
  refine spec_bind (M := fun _ => P) (spec_emit fun s start => blind s start.2) fun _ => ?_
  exact spec_pure fun _ start => ⟨rfl, start⟩

def refusalPage (allowed : MethodSet) : HttpResponse :=
  { HttpResponse.page "Method not Allowed".toList 405 with
    headers := [("Allow".toList, formatAllowHeader allowed),
      ("Content-Type".toList, "text/plain".toList)] }

theorem addAllow_page {allowed : MethodSet} (some_ : formatAllowHeader allowed ≠ []) :
    addAllow (.page "Method not Allowed".toList 405) (formatAllowHeader allowed) =
      .ok (refusalPage allowed) := by
  have key : ("Allow".toList).any forbiddenFieldChars.contains = false := by decide
  unfold addAllow
  rw [if_neg some_]
  unfold HttpResponse.withHeader validateHttpField
  rw [key, formatAllowHeader_clean]
  rfl

def readyResponse (answer : Except Exc HttpResponse) : Option HttpResponse :=
  answer.toOption.filter fun r => decide (r.statusCode ≠ -1)

theorem mem_readyResponse {answer : Except Exc HttpResponse} {q : HttpResponse} :
    q ∈ readyResponse answer ↔ answer = .ok q ∧ q.statusCode ≠ -1 := by
  cases answer with
  | error e => simp [readyResponse, Except.toOption]
  | ok a => simp [readyResponse, Except.toOption]

def LambdaResource.ran (handle : Nat → Request → Except Exc HttpResponse) (shim : LambdaResource)
    (m : HttpMethod) (req : Request) : List (Nat × Except Exc HttpResponse) :=
  (shim.runs m).toList.map fun h => (h, shim.render handle m req)

def LambdaResource.leaves (handle : Nat → Request → Except Exc HttpResponse)
    (shim : LambdaResource) (m : HttpMethod) (req : Request) :
    List (Nat × Except Exc HttpResponse) × Option HttpResponse :=
  if shim.hasSlot m then (shim.ran handle m req, readyResponse (shim.render handle m req))
  else ([], some (refusalPage shim.methodsAllowed))

section
variable {env : Env} {r : Registry} {handle : Nat → Request → Except Exc HttpResponse}
  {E : Exc → Session → Prop} (serves : env.Serves r handle) {id : Nat} {shim : LambdaResource}
  (pointed : r.shims.getD id LambdaResource.fresh = shim) {m : HttpMethod} {req : Request}
include serves pointed

theorem soFar_callRender :
    Spec (Routed m req) (callUser env (.render (.lambda id) m req))
      (fun a s => shim.render handle m req = .ok a ∧ SoFar r.shims (shim.ran handle m req) s)
      fun _ s => readyResponse (shim.render handle m req) = none ∧
        SoFar r.shims (shim.ran handle m req) s := by
  have soFar {s : Session} (routed : Routed m req s) : SoFar r.shims (shim.ran handle m req)
      { s with history := s.history ++
        [.called (.render (.lambda id) m req) (shim.render handle m req)] } := by
    obtain ⟨runs, queue⟩ := soFar_of_quiet r.shims routed.waiting.quiet
    refine ⟨?_, ?_⟩
    · unfold handlerRuns at runs ⊢
      rw [List.filterMap_append, runs, List.nil_append]
      simp only [List.filterMap_cons, List.filterMap_nil, Event.handlerRun, pointed,
        LambdaResource.ran]
      cases shim.runs m with
      | none => rfl
      | some h => rfl
    · rw [queueOf_emit, queue]
      rfl
  have answers {s : Session} (routed : Routed m req s) :
      env.answer s.history (.render (.lambda id) m req) = shim.render handle m req := by
    rw [serves.renders s.history id m req routed.waiting.quiet, pointed]
  refine spec_callAnswer env ?_ ?_
  · intro s a routed answer
    rw [answers routed] at answer
    exact ⟨answer, answer ▸ soFar routed⟩
  · intro s e routed answer
    rw [answers routed] at answer
    refine ⟨?_, answer ▸ soFar routed⟩
    rw [answer]
    rfl

theorem holding_renderResource :
    Spec (Routed m req) (renderResource env (.lambda id))
      (fun _ => Holding r.shims (shim.ran handle m req)
        (readyResponse (shim.render handle m req)))
      fun _ s => readyResponse (shim.render handle m req) = none ∧
        SoFar r.shims (shim.ran handle m req) s := by
  refine spec_getConn_bind (K := fun conn => conn.methodEnum = m ∧ conn.req = req)
    (fun s routed => ⟨⟨routed.method, by simp [Conn.req, routed.request]⟩, routed⟩)
    fun conn facts => ?_
  rw [facts.1, facts.2]
  refine spec_bind (soFar_callRender serves pointed) fun a => spec_assume fun answer => ?_
  refine spec_bind (M := fun _ s => s.conn.response = some a ∧ SoFar r.shims _ s)
    (spec_modify fun s soFar => ⟨rfl, soFar⟩) fun _ => ?_
  by_cases default_ : a.statusCode = -1
  · rw [if_pos default_]
    refine spec_bind (spec_pre (soFar_calm (calm_runInternalErrorHandlerSafely env _) (by decide)
      (by decide)) fun _ start => start.2) fun page => spec_modify fun s soFar => ⟨soFar, ?_⟩
    intro q ready
    obtain ⟨same, status⟩ := mem_readyResponse.mp ready
    rw [answer] at same
    cases same
    exact absurd default_ status
  · rw [if_neg default_]
    refine spec_pure fun s start => ⟨start.2, fun q ready => ?_⟩
    have same := (mem_readyResponse.mp ready).1
    rw [answer] at same
    cases same
    exact start.1

theorem holding_refuseMethod (some_ : formatAllowHeader shim.methodsAllowed ≠ []) :
    Spec (Routed m req) (refuseMethod env (.lambda id))
      (fun _ => Holding r.shims [] (some (refusalPage shim.methodsAllowed))) E := by
  have page : Spec (Routed m req) (methodNotAllowedPage env) (fun page s =>
      page = .page "Method not Allowed".toList 405 ∧ SoFar r.shims [] s) E := by
    refine spec_bind spec_getConn_frame fun conn => ?_
    rw [if_neg (by simp [serves.hookless.noRefusal])]
    exact spec_pure fun s routed => ⟨rfl, soFar_of_quiet r.shims routed.waiting.quiet⟩
  refine spec_bind page fun page => spec_assume fun form => ?_
  refine spec_bind (M := fun _ => SoFar r.shims []) (spec_modify fun s soFar => soFar) fun _ => ?_
  refine spec_bind (spec_readAllowed (fun h => serves.allowed h id) ?_) fun allowed =>
    spec_assume fun mask => ?_
  · intro s soFar
    exact (blind_holding none s ⟨soFar, fun _ ready => (Option.not_mem_none _ ready).elim⟩).1
  rw [mask, pointed, form, addAllow_page some_]
  refine spec_bind (M := fun page s => page = refusalPage shim.methodsAllowed ∧ SoFar r.shims [] s)
    (spec_pure fun _ soFar => ⟨rfl, soFar⟩) fun page => spec_assume fun same => ?_
  rw [same]
  refine spec_modify fun s soFar => ⟨soFar, fun q ready => ?_⟩
  cases ready
  rfl

theorem holding_dispatch (some_ : formatAllowHeader shim.methodsAllowed ≠ []) :
    Spec (Routed m req) (dispatchResourceHandler env (.lambda id))
      (fun _ => Holding r.shims (shim.leaves handle m req).1 (shim.leaves handle m req).2) E := by
  refine spec_tryCatch (M := fun _ s => (shim.leaves handle m req).2 = none ∧
    SoFar r.shims (shim.leaves handle m req).1 s) ?_ fun e => spec_assume fun unknown => ?_
  · refine spec_bind (M := fun _ => Routed m req) (spec_modify fun s routed =>
      ⟨⟨routed.waiting.quiet, routed.waiting.open_⟩, routed.method, routed.request⟩) fun _ => ?_
    refine spec_getConn_bind (K := fun conn => conn.methodEnum = m)
      (fun s routed => ⟨routed.method, routed⟩) fun conn method => ?_
    refine spec_bind (spec_readAllowed (fun h => serves.allowed h id) (blind_routed m req))
      fun allowed => spec_assume fun mask => ?_
    rw [method, mask, pointed, LambdaResource.leaves, LambdaResource.hasSlot]
    split
    · exact holding_renderResource serves pointed
    · exact holding_refuseMethod serves pointed some_
  · refine spec_bind (soFar_calm (calm_logDispatchError env _) (by decide) (by decide)) fun _ => ?_
    refine spec_post (soFar_calm (E := E) (calm_handleDispatchException env e) (by decide)
      (by decide))
      fun _ s soFar => ⟨soFar, ?_⟩
    rw [unknown]
    exact fun q ready => (Option.not_mem_none q ready).elim

end

def notFoundText : HttpResponse := .page "Not Found".toList 404

section
variable {env : Env} {r : Registry} {handle : Nat → Request → Except Exc HttpResponse}
  {E : Exc → Session → Prop}

theorem holding_emplaceNotFound (hookless : env.Hookless) (shims : List LambdaResource)
    {m : HttpMethod} {req : Request} :
    Spec (Routed m req) (emplaceNotFound env)
      (fun _ => Holding shims [] (some notFoundText)) E := by
  refine spec_getConn_bind (K := fun conn => conn.response = none)
    (fun s routed => ⟨routed.waiting.open_.2, routed⟩) fun conn nothing => ?_
  rw [nothing]
  refine spec_bind (M := fun page s => page = notFoundText ∧ Routed m req s)
    (spec_bind spec_getConn_frame fun conn => ?_) fun page => spec_assume fun same => ?_
  · rw [if_neg (by simp [hookless.noMissing])]
    exact spec_pure fun s routed => ⟨rfl, routed⟩
  · rw [same]
    refine spec_modify fun s routed =>
      ⟨soFar_of_quiet shims routed.waiting.quiet, fun q ready => ?_⟩
    cases ready
    rfl

theorem finished_queueResponse (hookless : env.Hookless) (resource : Option Handler)
    {shims : List LambdaResource} {ran : List (Nat × Except Exc HttpResponse)}
    {ready : Option HttpResponse} :
    Spec (Holding shims ran ready) (materializeAndQueueResponse env resource)
      (fun _ => Finished env shims ran ready) fun _ => Finished env shims ran ready := by
  have runs : Spec (Holding shims ran ready) (materializeAndQueueResponse env resource)
      (fun _ s => handlerRuns shims s.history = ran)
      fun _ s => handlerRuns shims s.history = ran := by
    refine spec_pre ((emits_materializeAndQueueResponse env resource).history_spec
      (I := fun h => handlerRuns shims h = ran) fun h new same sound => ?_) fun s start => start.1.1
    have quiet : ∀ k ∈ queueingKinds, k ≠ .render := by decide
    rw [handlerRuns_append fun e listed => quiet e.kind (sound e listed)]
    exact same
  have queued : Spec (Holding shims ran ready) (materializeAndQueueResponse env resource)
      (fun _ s => ∀ q ∈ ready, Delivered env q s) fun _ s => ∀ q ∈ ready, Delivered env q s := by
    cases ready with
    | none =>
      exact fun _ _ => ⟨fun _ _ _ known => (Option.not_mem_none _ known).elim,
        fun _ _ _ known => (Option.not_mem_none _ known).elim⟩
    | some q =>
      refine spec_mono (delivered_queueResponse hookless resource)
        (fun s start => ⟨start.2 q rfl, start.1.2⟩) ?_ ?_
      · intro _ s delivered q' known
        cases known
        exact delivered
      · intro _ s delivered q' known
        cases known
        exact delivered
  exact spec_mono (spec_and runs queued) (fun _ start => start)
    (fun _ _ post => ⟨post.1, post.2⟩) fun _ _ raised => ⟨raised.1, raised.2⟩

def WireRequest.target (w : WireRequest) (cfg : WebserverConfig) : CanonicalPath :=
  resolvePath (standardizeUrl (baseUnescaper w.url cfg.unescaper))

theorem WireRequest.dispatched_eq (w : WireRequest) (cfg : WebserverConfig) :
    w.dispatched cfg = (w.target cfg).text := normalizePath_eq_text _

def WireRequest.verb (w : WireRequest) : HttpMethod := (resolveMethodCallback w.method).1

variable (serves : env.Serves r handle) {idx : HttpEndpoint} {tier : RouteTier} {methods : MethodSet}
  {id : Nat} (table : r.table = tier.sole env.rx idx.urlComplete ⟨methods, .lambda id, false⟩)
  (compiles : tier.Compiles env.rx idx.urlComplete) {w : WireRequest}
include serves table compiles

theorem resolve_sole {answer : Option Captures}
    (answers : tier.answers env.rx idx.urlComplete (w.target env.config) = answer) :
    Spec (Completed env w) (resolveResourceForRequest env)
      (fun found s => found = answer.map (fun _ => .lambda id) ∧
        Routed w.verb ((w.completed env).resolved (answer.getD [])) s) E := by
  intro s start
  have cold : (env.routes.lookupV2 env.rx env.cache s.conn.methodEnum s.conn.standardizedUrl).2.map
      RouteTable.answer = answer.map fun captures => (⟨methods, .lambda id, false⟩, captures) := by
    rw [RouteTable.lookupV2_answer serves.cache, start.addressed.url, w.dispatched_eq,
      serves.routes, table, RouteTier.coldLookup_sole compiles, answers]
  generalize looked : (env.routes.lookupV2 env.rx env.cache s.conn.methodEnum
    s.conn.standardizedUrl).2 = found at cold
  obtain ⟨result, state⟩ := resolveResourceForRequest_run env looked
  have waiting := blind_waiting s start.waiting
  rw [result, state]
  refine ⟨fun hrm same => ?_, fun e stop => nomatch stop⟩
  cases same
  cases answer with
  | none =>
    rw [Option.map_none, Option.map_eq_none_iff] at cold
    subst cold
    exact ⟨rfl, waiting, start.addressed.method, by simp [start.request, Request.resolved]⟩
  | some captures =>
    obtain ⟨hit, rfl, form⟩ := Option.map_eq_some_iff.mp cold
    obtain ⟨entry, captured⟩ := Prod.mk.inj form
    refine ⟨by simp [entry], ⟨waiting.quiet, waiting.open_⟩, start.addressed.method, ?_⟩
    simp [Conn.resolve, start.request, Request.resolved, captured]

omit table compiles in
theorem upgraded_request {what : Queued}
    (answer : upgradeAnswer env w (w.dispatched env.config) = some what) :
    handlerRuns r.shims (after (serve env w) {}).history = [] ∧
      queueOf (after (serve env w) {}) = [what] := by
  have last : Spec (Completed env w) (finalizeAnswer env w)
      (fun _ s => handlerRuns r.shims s.history = [] ∧ queueOf s = [what])
      fun _ s => handlerRuns r.shims s.history = [] ∧ queueOf s = [what] := by
    refine spec_bind (spec_pre (spec_tryWsUpgrade_answered env w answer (P := Completed env w))
      fun s start => ⟨start, start.addressed.url⟩) fun up => spec_assume fun some_ => ?_
    obtain ⟨result, rfl⟩ := Option.isSome_iff_exists.mp some_
    refine spec_pure ?_
    rintro s ⟨t, completed, rfl⟩
    obtain ⟨runs, queue⟩ := soFar_of_quiet r.shims completed.waiting.quiet
    refine ⟨?_, ?_⟩
    · rw [handlerRuns_emit t.history EventKind.noConfusion]
      exact runs
    · rw [queueOf_emit, queue]
      rfl
  exact spec_after (hookless_serve serves.hookless last) rfl

/-- A request that comes to the routes: what the shim leaves is handed over, or the
    not-found page when the route does not answer the path. -/
theorem routed_request (declined : upgradeAnswer env w (w.dispatched env.config) = none)
    {shim : LambdaResource} (pointed : r.shims.getD id LambdaResource.fresh = shim)
    (some_ : formatAllowHeader shim.methodsAllowed ≠ []) :
    let left := (tier.answers env.rx idx.urlComplete (w.target env.config)).elim
      ([], some notFoundText) fun captures =>
        shim.leaves handle w.verb ((w.completed env).resolved captures)
    Finished env r.shims left.1 left.2 (after (serve env w) {}) := by
  intro left
  have answer := hookless_answer (w := w) (Q := fun _ => Finished env r.shims left.1 left.2)
    (E := fun _ => Finished env r.shims left.1 left.2) serves.hookless (blind_holding left.2)
    (resolve_sole serves table compiles rfl)
    (fun resource here => ?_) (fun here => ?_)
    fun resource => finished_queueResponse serves.hookless resource
  · have last : Spec (Completed env w) (finalizeAnswer env w)
        (fun _ => Finished env r.shims left.1 left.2)
        fun _ => Finished env r.shims left.1 left.2 := by
      refine spec_bind (spec_pre (spec_tryWsUpgrade_declined env w declined
        (P := Completed env w)) fun s start => ⟨start, start.addressed.url⟩) fun up =>
          spec_assume fun none_ => ?_
      rw [none_]
      exact answer.spec
    exact spec_after (hookless_serve serves.hookless last) rfl
  · obtain ⟨captures, found, rfl⟩ := Option.map_eq_some_iff.mp here
    rw [found]
    have same : left = shim.leaves handle w.verb ((w.completed env).resolved captures) := by
      simp only [left, found, Option.elim_some]
    rw [same]
    exact holding_dispatch serves pointed some_
  · rw [Option.map_eq_none_iff] at here
    have same : left = ([], some notFoundText) := by
      simp only [left, here, Option.elim_none]
    rw [same]
    exact holding_emplaceNotFound serves.hookless r.shims

end
end HttpServer
