import HttpServer.RequestRun
import HttpServer.ResponseBuilding

/-!
What reaches libmicrohttpd of a response's fields. A response that is decorated
was made by a handler, a hook or one of the library's own pages, and nobody but
an `after_handler` hook and the `Allow` header of a 405 page has changed it
since. So what every step of building a response keeps is true of every
response that is handed over.
-/
namespace HttpServer
open Effect

def UserCall.responses : (call : UserCall) → call.Answer → List HttpResponse
  | .authHandler _, answer => answer.toList
  | .notFoundHandler _, r => [r]
  | .methodNotAllowedHandler .., r => [r]
  | .internalErrorHandler .., r => [r]
  | .render .., r => [r]
  | .logError _, _ => []
  | .logAccess _, _ => []

/-- The library's own responses have the property, user code returns no others,
    and hooks that edit a response keep it. -/
structure Sources (env : Env) (P : HttpResponse → Prop) : Prop where
  constructed : P {}
  page : ∀ text code, P (.page text code)
  empty500 : P .empty500
  allow : ∀ r value next, P r → addAllow r value = .ok next → P next
  answers : ∀ h call a, env.answer h call = .ok a → ∀ r ∈ call.responses a, P r
  hooks : ∀ h call r, env.runHook h call = .respond r → P r
  edits : ∀ h call r, P r → P (env.editResponse h call r)

structure Holds (P : HttpResponse → Prop) (s : Session) : Prop where
  response : ∀ r, s.conn.response = some r → P r
  decorated : ∀ r, .decorate r ∈ s.history → P r

def Upholds {α : Type} (P : HttpResponse → Prop) (x : DispatchM α) (out : α → Prop) : Prop :=
  Spec (Holds P) x (fun a s => out a ∧ Holds P s) fun _ => Holds P

namespace Upholds
variable {α β : Type} {P : HttpResponse → Prop} {x : DispatchM α} {out : α → Prop}

theorem bind {f : α → DispatchM β} {out' : β → Prop} (first : Upholds P x out)
    (rest : ∀ a, out a → Upholds P (f a) out') : Upholds P (x >>= f) out' :=
  spec_bind first fun a => spec_assume (rest a)

theorem pure {a : α} (holds : out a) : Upholds P (pure a) out := spec_pure fun _ kept => ⟨holds, kept⟩

theorem throw (e : Exc) : Upholds P (throw e) out := spec_throw fun _ kept => kept

theorem raise {result : Except Exc α} (holds : ∀ a, result = .ok a → out a) :
    Upholds P (raise result) out := by
  cases result with
  | ok a => exact pure (holds a rfl)
  | error e => exact throw e

theorem tryCatch {h : Exc → DispatchM α} (body : Upholds P x out)
    (handler : ∀ e, Upholds P (h e) out) : Upholds P (tryCatch x h) out :=
  spec_tryCatch body handler

theorem mono {out' : α → Prop} (upholds : Upholds P x out) (weaker : ∀ a, out a → out' a) :
    Upholds P x out' :=
  spec_post upholds fun a _ post => ⟨weaker a post.1, post.2⟩

theorem of_emits {kinds : EventKind → Prop} (emits : EmitsOnly Conn.response kinds x)
    (silent : ¬kinds .decorate) : Upholds P x fun _ => True := by
  refine spec_post (spec_of_steps emits fun s t kept step => ⟨?_, ?_⟩) fun _ _ post => ⟨trivial, post⟩
  · rw [step.2]
    exact kept.response
  · intro r listed
    obtain ⟨new, grown, allowed⟩ := step.1
    rw [grown] at listed
    rcases List.mem_append.mp listed with old | fresh
    · exact kept.decorated r old
    · exact absurd (allowed _ fresh) silent

theorem place {r : HttpResponse} {f : Conn → Conn} (holds : P r)
    (sets : ∀ c, (f c).response = some r) : Upholds P (setConn f) fun _ => True := by
  refine spec_modify fun s kept => ⟨trivial, ⟨?_, kept.decorated⟩⟩
  intro r' set
  cases (sets s.conn).symm.trans set
  exact holds

theorem emplace {r : HttpResponse} (holds : P r) : Upholds P (emplace r) fun _ => True :=
  place holds fun _ => rfl

theorem get : Upholds P get fun _ : Session => True := spec_get fun _ kept => ⟨trivial, kept⟩

theorem getConn : Upholds P getConn fun c => ∀ r, c.response = some r → P r :=
  spec_post spec_getConn fun _ _ post => ⟨post.1 ▸ post.2.response, post.2⟩

theorem setConn {f : Conn → Conn} (keeps : ∀ c, (f c).response = c.response) :
    Upholds P (setConn f) fun _ => True :=
  @of_emits _ P _ (fun _ => False) (.setConn keeps) id

theorem emit {e : Event} (silent : e.kind ≠ .decorate) : Upholds P (emit e) fun _ => True :=
  @of_emits _ P _ (· = e.kind) (.emit rfl) (Ne.symm silent)

theorem readHooks (env : Env) : Upholds P (readHooks env) fun _ => True :=
  @of_emits _ P _ (.sharedRead = ·) (Calm.readHooks env rfl).emits nofun

theorem readAllowed (env : Env) (resource : Handler) :
    Upholds P (readAllowed env resource) fun _ => True :=
  @of_emits _ P _ (.sharedRead = ·) (Calm.readAllowed env resource rfl).emits nofun

theorem logDispatchError (env : Env) (msg : Str) :
    Upholds P (logDispatchError env msg) fun _ => True :=
  @of_emits _ P _ (.logError = ·) (Calm.logDispatchError env msg rfl).emits nofun

theorem attempt (body : Upholds P x out) :
    Upholds P (attempt x) fun result => ∀ a, result = .ok a → out a := by
  refine spec_mono (spec_attempt body) (fun _ kept => kept) ?_ fun _ _ absurd_ => absurd_.elim
  intro result s post
  refine ⟨fun a ok => (post.1 a ok).1, ?_⟩
  cases result with
  | ok a => exact (post.1 a rfl).2
  | error e => exact post.2 e rfl

end Upholds

def HookCtx.edits : HookCtx → Option HttpResponse
  | .afterHandler r => some r
  | _ => none

def ShowsOwn (P : HttpResponse → Prop) (ctx : Conn → HookCtx) : Prop :=
  ∀ c, (∀ r, c.response = some r → P r) → ∀ r ∈ (ctx c).edits, P r

section
variable {env : Env} {P : HttpResponse → Prop}

theorem upholds_gatedChain (gate : Bool) {chain : DispatchM (Option HttpResponse)}
    (upholds : Upholds P chain fun action => ∀ r ∈ action, P r) :
    Upholds P (gatedChain gate chain) fun action => ∀ r ∈ action, P r := by
  unfold gatedChain
  split
  · exact upholds
  · exact .pure nofun

theorem upholds_serverGate (phase : HookPhase) : Upholds P (serverGate env phase) fun _ => True :=
  .bind (.readHooks env) fun _ _ => .pure trivial

theorem upholds_serverHooks (phase : HookPhase) :
    Upholds P (serverHooks env phase) fun _ => True :=
  .bind (.readHooks env) fun _ _ => .pure trivial

theorem upholds_routeHooks (resource : Handler) (phase : HookPhase) :
    Upholds P (routeHooks env resource phase) fun _ => True :=
  .bind (.readHooks env) fun _ _ => .pure trivial

theorem upholds_routeGate (resource : Option Handler) (phase : HookPhase) :
    Upholds P (routeGate env resource phase) fun _ => True :=
  .bind (.readHooks env) fun _ _ => .pure trivial

theorem showsOwn_of_blind {ctx : Conn → HookCtx} (blind : ∀ c, (ctx c).edits = none) :
    ShowsOwn P ctx := by
  intro c _ r shown
  rw [blind c] at shown
  cases shown

theorem upholds_fireVoid (scope : HookScope) (ctx : Conn → HookCtx) (fns : List HookFn) :
    Upholds P (fireVoid env scope ctx fns) fun _ => True := by
  induction fns with
  | nil => exact .pure trivial
  | cons fn rest ih =>
    refine Upholds.bind .getConn fun conn _ => ?_
    refine Upholds.bind (.tryCatch (.bind .get fun s _ => ?_) fun e => .logDispatchError env _)
      fun _ _ => ih
    split
    · exact .emit nofun
    · exact .bind (.emit nofun) fun _ _ => .throw _

theorem upholds_fireRouteVoid (gate : Bool) (resource : Option Handler) (phase : HookPhase)
    (ctx : HookCtx) : Upholds P (fireRouteVoid env gate resource phase ctx) fun _ => True := by
  unfold fireRouteVoid
  split
  · exact .bind (upholds_routeHooks _ phase) fun fns _ => upholds_fireVoid .route _ fns
  · exact .pure trivial

theorem upholds_fireServerVoid (gate : Bool) (phase : HookPhase) (ctx : HookCtx) :
    Upholds P (fireServerVoid env gate phase ctx) fun _ => True := by
  unfold fireServerVoid
  split
  · exact .bind (upholds_serverHooks phase) fun fns _ => upholds_fireVoid .server _ fns
  · exact .pure trivial

theorem upholds_fireRequestCompletedGated (succeeded : Bool) :
    Upholds P (fireRequestCompletedGated env succeeded) fun _ => True := by
  refine Upholds.bind (upholds_serverGate _) fun server _ => ?_
  refine Upholds.bind .getConn fun conn _ => ?_
  refine Upholds.bind (upholds_routeGate _ _) fun route _ => ?_
  split
  · exact .pure trivial
  · exact .bind (upholds_fireServerVoid server _ _) fun _ _ => upholds_fireRouteVoid route _ _ _

theorem upholds_fireRouteResolvedGated (hrm : Option Handler) :
    Upholds P (fireRouteResolvedGated env hrm) fun _ => True := by
  refine Upholds.bind (upholds_serverGate _) fun server _ => ?_
  split
  · refine Upholds.bind (?_ : Upholds P (routeResolvedDescriptor env hrm) fun _ => True)
      fun desc _ => .bind (upholds_serverHooks _) fun fns _ => upholds_fireVoid .server _ fns
    cases hrm with
    | some res => exact .bind .getConn fun _ _ => .bind (.readAllowed env res) fun _ _ => .pure trivial
    | none => exact .pure trivial
  · exact .pure trivial

theorem upholds_emplaceIfSome {action : Option HttpResponse} (known : ∀ r ∈ action, P r) :
    Upholds P (emplaceIfSome action) fun _ => True := by
  cases action with
  | some r => exact .emplace (known r rfl)
  | none => exact .pure trivial

theorem upholds_materializeResponse : Upholds P (materializeResponse env) fun _ => True :=
  .bind .getConn fun _ _ => .pure trivial

variable {r : HttpResponse}

theorem upholds_emplaceAndMaterialize (holds : P r) :
    Upholds P (emplaceAndMaterialize env r) fun _ => True :=
  .bind (.emplace holds) fun _ _ => upholds_materializeResponse

theorem upholds_decorateMhdResponse (holds : P r) :
    Upholds P (decorateMhdResponse env r) fun _ => True := by
  refine @Upholds.bind _ _ P _ (fun _ => True) _ _ (spec_emit fun s kept => ?_) fun _ _ => ?_
  · refine ⟨trivial, kept.response, fun r' listed => ?_⟩
    rcases List.mem_append.mp listed with old | fresh
    · exact kept.decorated r' old
    · cases List.mem_singleton.mp fresh
      exact holds
  · split
    · exact .pure trivial
    · exact .throw _

theorem upholds_mhdQueue (what : Queued) : Upholds P (mhdQueue env what) fun _ => True :=
  .bind (.emit nofun) fun _ _ => .pure trivial

theorem upholds_shortCircuit (holds : P r) : Upholds P (shortCircuit r) fun _ => True :=
  .place holds fun _ => rfl

end

section
variable {env : Env} {P : HttpResponse → Prop} (sources : Sources env P)
include sources

theorem upholds_callUser (call : UserCall) :
    Upholds P (callUser env call) fun a => ∀ r ∈ call.responses a, P r := by
  refine Upholds.bind .get fun s _ => ?_
  refine Upholds.bind (.emit ?_) fun _ _ => .raise fun a answered => sources.answers _ call a answered
  cases call <;> exact nofun

theorem upholds_notFoundPage : Upholds P (notFoundPage env) P := by
  refine Upholds.bind .getConn fun conn _ => ?_
  split
  · exact (upholds_callUser sources _).mono fun r answered => answered r List.mem_cons_self
  · exact .pure (sources.page _ _)

theorem upholds_methodNotAllowedPage : Upholds P (methodNotAllowedPage env) P := by
  refine Upholds.bind .getConn fun conn _ => ?_
  split
  · exact (upholds_callUser sources _).mono fun r answered => answered r List.mem_cons_self
  · exact .pure (sources.page _ _)

theorem upholds_internalErrorPage (msg : Str) : Upholds P (internalErrorPage env msg) P := by
  refine Upholds.bind .getConn fun conn _ => ?_
  split
  · exact (upholds_callUser sources _).mono fun r answered => answered r List.mem_cons_self
  · split
    · exact .pure (sources.page _ _)
    · exact .pure (sources.page _ _)

theorem upholds_runInternalErrorHandlerSafely (msg : Str) :
    Upholds P (runInternalErrorHandlerSafely env msg) P :=
  .tryCatch (upholds_internalErrorPage sources msg) fun _ =>
    .bind (.logDispatchError env _) fun _ _ => .pure sources.empty500

theorem upholds_askAuth (req : Request) :
    Upholds P (askAuth env req) fun verdict => ∀ rejection ∈ verdict, ∀ r ∈ rejection, P r := by
  refine .tryCatch (.bind (upholds_callUser sources _) fun a answered => .pure ?_) fun e =>
    .bind (.logDispatchError env _) fun _ _ => .pure nofun
  rintro rejection ⟨⟩ r held
  exact answered r (by simpa [UserCall.responses] using held)

theorem upholds_authAlias (call : HookCall) :
    Upholds P (authAlias env call) fun action => ∀ r ∈ action, P r := by
  unfold authAlias
  split
  · exact .pure nofun
  · split
    · exact .pure nofun
    · refine Upholds.bind (upholds_askAuth sources _) fun verdict known => ?_
      split
      · refine .pure ?_
        rintro r ⟨⟩
        exact sources.empty500
      · exact .pure (known _ rfl)

theorem upholds_methodNotAllowedAlias (call : HookCall) :
    Upholds P (methodNotAllowedAlias env call) fun action => ∀ r ∈ action, P r := by
  unfold methodNotAllowedAlias
  split
  · refine Upholds.bind (.readAllowed env _) fun allowed _ => ?_
    split
    · exact .pure nofun
    · refine Upholds.bind (upholds_callUser sources _) fun resp answered => ?_
      have own := answered resp List.mem_cons_self
      refine @Upholds.bind _ _ P _ P _ _ (.raise fun next added => ?_) fun next holds => .pure ?_
      · split at added
        · exact sources.allow _ _ _ own added
        · cases added
          exact own
      · rintro r ⟨⟩
        exact holds
  · exact .pure nofun

theorem upholds_editInPlace (h : History) (call : HookCall) (shown : ∀ r ∈ call.ctx.edits, P r) :
    Upholds P (editInPlace env h call) fun _ => True := by
  unfold editInPlace
  split
  · rename_i r ctx
    exact .emplace (sources.edits _ _ _ (shown r (by rw [ctx]; rfl)))
  · exact .pure trivial

theorem upholds_userAction (call : HookCall) (shown : ∀ r ∈ call.ctx.edits, P r) :
    Upholds P (userAction env call) fun action => ∀ r ∈ action, P r := by
  refine Upholds.bind .get fun s _ => ?_
  refine Upholds.bind (upholds_editInPlace sources s.history call shown) fun _ _ =>
    .raise fun action answered => ?_
  cases ran : env.runHook s.history call with
  | pass =>
    rw [ran] at answered
    cases answered
    exact nofun
  | respond r =>
    rw [ran] at answered
    cases answered
    rintro r' ⟨⟩
    exact sources.hooks _ _ _ ran
  | threw e =>
    rw [ran] at answered
    cases answered

theorem upholds_hookAction (call : HookCall) (shown : ∀ r ∈ call.ctx.edits, P r) :
    Upholds P (hookAction env call) fun action => ∀ r ∈ action, P r := by
  have body : Upholds P (actionBody env call) fun action => ∀ r ∈ action, P r := by
    unfold actionBody
    split
    · exact upholds_authAlias sources call
    · exact upholds_methodNotAllowedAlias sources call
    · exact .pure nofun
    · exact upholds_userAction sources call shown
  exact .bind (.attempt body) fun result known => .bind (.emit nofun) fun _ _ => .raise known

variable {ctx : Conn → HookCtx}

theorem upholds_fireShortCircuit (scope : HookScope) (shows : ShowsOwn P ctx) (fns : List HookFn) :
    Upholds P (fireShortCircuit env scope ctx fns) fun action => ∀ r ∈ action, P r := by
  induction fns with
  | nil => exact .pure nofun
  | cons fn rest ih =>
    refine Upholds.bind .getConn fun conn own => ?_
    refine Upholds.bind (.tryCatch (upholds_hookAction sources _ (shows conn own)) fun e =>
      .bind (.logDispatchError env _) fun _ _ => .pure nofun) fun action known => ?_
    split
    · exact .pure known
    · exact ih

theorem upholds_fireServer (phase : HookPhase) (shows : ShowsOwn P ctx) :
    Upholds P (fireServer env phase ctx) fun action => ∀ r ∈ action, P r :=
  .bind (upholds_serverHooks phase) fun fns _ => upholds_fireShortCircuit sources .server shows fns

theorem upholds_fireRoute (resource : Handler) (phase : HookPhase) (shows : ShowsOwn P ctx) :
    Upholds P (fireRoute env resource phase ctx) fun action => ∀ r ∈ action, P r :=
  .bind (upholds_routeHooks resource phase) fun fns _ =>
    upholds_fireShortCircuit sources .route shows fns

variable (resource : Option Handler)

theorem upholds_fireRouteIfSome (phase : HookPhase) (shows : ShowsOwn P ctx) :
    Upholds P (fireRouteIfSome env resource phase ctx) fun action => ∀ r ∈ action, P r := by
  unfold fireRouteIfSome
  split
  · exact upholds_fireRoute sources _ phase shows
  · exact .pure nofun

theorem upholds_fireHandlerExceptionAlias (message : Str) :
    Upholds P (fireHandlerExceptionAlias env message) fun action => ∀ r ∈ action, P r := by
  refine Upholds.bind .getConn fun conn _ => ?_
  refine .tryCatch (.bind (upholds_callUser sources _) fun r answered => .pure ?_) fun e =>
    .bind (.logDispatchError env _) fun _ _ => .pure nofun
  rintro r' ⟨⟩
  exact answered r List.mem_cons_self

theorem upholds_fireHandlerException (exception : Exc) (message : Str) :
    Upholds P (fireHandlerException env exception message) fun action => ∀ r ∈ action, P r := by
  refine Upholds.bind (.readHooks env) fun st _ => ?_
  refine Upholds.bind (upholds_fireShortCircuit sources .server
    (showsOwn_of_blind fun _ => rfl) _) fun action known => ?_
  split
  · exact .pure known
  · split
    · exact upholds_fireHandlerExceptionAlias sources message
    · exact .pure nofun

theorem upholds_handlerExceptionChains (server route : Bool) (resource : Option Handler)
    (exception : Exc) :
    Upholds P (handlerExceptionChains env server route resource exception)
      fun action => ∀ r ∈ action, P r := by
  refine Upholds.bind (upholds_gatedChain server
    (upholds_fireHandlerException sources exception _)) fun action known => ?_
  split
  · exact .pure known
  · exact upholds_gatedChain route (upholds_fireRouteIfSome sources resource _
      (showsOwn_of_blind fun _ => rfl))

theorem upholds_answerException (exception : Exc) :
    Upholds P (answerException env exception) fun _ => True := by
  refine Upholds.bind .getConn fun conn _ => ?_
  refine Upholds.bind (upholds_routeGate _ _) fun route _ => ?_
  refine Upholds.bind (.readHooks env) fun st _ => ?_
  dsimp only
  split
  · refine Upholds.bind (upholds_handlerExceptionChains sources _ _ _ exception)
      fun action known => .emplace ?_
    cases action with
    | none => exact sources.empty500
    | some r => exact known r rfl
  · exact .bind (upholds_runInternalErrorHandlerSafely sources _) fun r holds => .emplace holds

theorem upholds_renderResource (hrm : Handler) :
    Upholds P (renderResource env hrm) fun _ => True := by
  refine Upholds.bind .getConn fun conn _ => ?_
  refine Upholds.bind (upholds_callUser sources _) fun r answered => ?_
  refine Upholds.bind (.emplace (answered r List.mem_cons_self)) fun _ _ => ?_
  split
  · exact .bind (upholds_runInternalErrorHandlerSafely sources _) fun page holds => .emplace holds
  · exact .pure trivial

theorem upholds_refuseMethod (hrm : Handler) :
    Upholds P (refuseMethod env hrm) fun _ => True := by
  refine Upholds.bind (upholds_methodNotAllowedPage sources) fun page holds => ?_
  refine Upholds.bind (.emplace holds) fun _ _ => ?_
  refine Upholds.bind (.readAllowed env hrm) fun allowed _ => ?_
  refine Upholds.bind (.raise fun next added => sources.allow page _ next holds added)
    fun next kept => .emplace kept

theorem upholds_dispatchResourceHandler (hrm : Handler) :
    Upholds P (dispatchResourceHandler env hrm) fun _ => True := by
  refine .tryCatch (.bind (.setConn fun _ => rfl) fun _ _ => ?_) fun e =>
    .bind (.logDispatchError env _) fun _ _ => .bind (.emit nofun) fun _ _ =>
      upholds_answerException sources e
  refine Upholds.bind .getConn fun conn _ => ?_
  refine Upholds.bind (.readAllowed env hrm) fun allowed _ => ?_
  split
  · exact upholds_renderResource sources hrm
  · exact upholds_refuseMethod sources hrm

theorem upholds_fireResponseSent (ctx : HookCtx) :
    Upholds P (fireResponseSent env ctx) fun _ => True := by
  refine Upholds.bind (.readHooks env) fun st _ => ?_
  refine Upholds.bind (upholds_fireVoid .server _ _) fun _ _ => ?_
  split
  · exact .bind .getConn fun conn _ => .tryCatch
      ((upholds_callUser sources _).mono fun _ _ => trivial) fun e => .logDispatchError env _
  · exact .pure trivial

theorem upholds_fireResponseSentGated :
    Upholds P (fireResponseSentGated env resource) fun _ => True := by
  refine Upholds.bind (.readHooks env) fun st _ => ?_
  refine Upholds.bind (upholds_routeGate _ _) fun route _ => ?_
  refine Upholds.bind .getConn fun conn _ => ?_
  split
  · exact .pure trivial
  · split
    · exact .bind (upholds_fireResponseSent sources _) fun _ _ =>
        upholds_fireRouteVoid route resource _ _
    · exact .pure trivial

theorem upholds_fireBeforeHandlerGated (hrm : Handler) :
    Upholds P (fireBeforeHandlerGated env hrm) fun _ => True := by
  refine Upholds.bind (upholds_serverGate _) fun server _ => ?_
  refine Upholds.bind (upholds_routeGate _ _) fun route _ => ?_
  split
  · exact .pure trivial
  · refine Upholds.bind (?_ : Upholds P (beforeHandlerDescriptor env hrm) fun _ => True)
      fun desc _ => ?_
    · refine Upholds.bind .getConn fun conn _ => ?_
      split
      · exact .pure trivial
      · exact .bind (.readAllowed env hrm) fun _ _ => .pure trivial
    · have blind : ShowsOwn P fun c : Conn => .beforeHandler desc c.methodEnum (some hrm) :=
        showsOwn_of_blind fun _ => rfl
      refine Upholds.bind (upholds_gatedChain server (upholds_fireServer sources _ blind))
        fun action known => ?_
      split
      · exact .bind (.emplace (known _ rfl)) fun _ _ => .pure trivial
      · refine Upholds.bind (upholds_gatedChain route (upholds_fireRoute sources hrm _ blind))
          fun action known => ?_
        split
        · exact .bind (.emplace (known _ rfl)) fun _ _ => .pure trivial
        · exact .pure trivial

theorem holds_getD {response : Option HttpResponse} (own : ∀ r, response = some r → P r) :
    P (response.getD {}) := by
  cases response with
  | none => exact sources.constructed
  | some r => exact own r rfl

theorem showsOwn_afterHandler : ShowsOwn P afterHandlerCtx := by
  intro c own r shown
  cases shown
  exact holds_getD sources own

theorem upholds_fireAfterHandlerGated :
    Upholds P (fireAfterHandlerGated env resource) fun _ => True := by
  have shows := showsOwn_afterHandler sources
  refine Upholds.bind (upholds_serverGate _) fun server _ => ?_
  refine Upholds.bind (upholds_routeGate _ _) fun route _ => ?_
  refine Upholds.bind .getConn fun conn _ => ?_
  split
  · exact .pure trivial
  · refine Upholds.bind (upholds_gatedChain server (upholds_fireServer sources _ shows))
      fun action known => .bind (upholds_emplaceIfSome known) fun _ _ => ?_
    exact .bind (upholds_gatedChain route (upholds_fireRouteIfSome sources resource _ shows))
      fun action known => upholds_emplaceIfSome known

theorem upholds_materializeErrorPage (msg : Str) :
    Upholds P (materializeErrorPage env msg) fun _ => True :=
  .tryCatch (.bind (upholds_runInternalErrorHandlerSafely sources msg) fun _ holds =>
    upholds_emplaceAndMaterialize holds) fun _ => .pure trivial

theorem upholds_getRawResponseWithFallback :
    Upholds P (getRawResponseWithFallback env) fun _ => True := by
  refine .tryCatch (.bind upholds_materializeResponse fun raw _ => ?_) fun e => ?_
  · split
    · exact .pure trivial
    · exact .bind (upholds_runInternalErrorHandlerSafely sources _) fun _ holds =>
        upholds_emplaceAndMaterialize holds
  · cases e with
    | invalidArgument what =>
      exact .tryCatch (.bind (upholds_notFoundPage sources) fun _ holds =>
        upholds_emplaceAndMaterialize holds) fun _ => .pure trivial
    | stdException what =>
      exact .bind (.logDispatchError env _) fun _ _ => upholds_materializeErrorPage sources _
    | other =>
      exact .bind (.logDispatchError env _) fun _ _ => upholds_materializeErrorPage sources _

theorem upholds_materializeAndQueueResponse :
    Upholds P (materializeAndQueueResponse env resource) fun _ => True := by
  refine Upholds.bind (?_ : Upholds P (rawOrForced500 env) fun _ => True) fun raw _ => ?_
  · refine Upholds.bind (upholds_getRawResponseWithFallback sources) fun raw _ => ?_
    split
    · exact .pure trivial
    · exact .bind (.logDispatchError env _) fun _ _ =>
        upholds_emplaceAndMaterialize sources.empty500
  · split
    · refine Upholds.bind .getConn fun conn own => ?_
      exact .bind (upholds_decorateMhdResponse (holds_getD sources own)) fun _ _ =>
        .bind (upholds_mhdQueue _) fun _ _ =>
          .bind (upholds_fireResponseSentGated sources resource) fun _ _ => .pure trivial
    · exact .pure trivial

theorem upholds_answerRouted : Upholds P (answerRouted env) fun _ => True := by
  refine Upholds.bind (?_ : Upholds P (resolveResourceForRequest env) fun _ => True)
    fun hrm _ => ?_
  · refine Upholds.bind (.readHooks env) fun st _ => Upholds.bind .getConn fun conn _ => ?_
    split
    · exact .pure trivial
    · exact .bind (.setConn fun _ => rfl) fun _ _ => .pure trivial
  · split
    · refine Upholds.bind (.bind (.readHooks env) fun st _ => .setConn fun _ => rfl) fun _ _ => ?_
      refine Upholds.bind (upholds_fireRouteResolvedGated _) fun _ _ => ?_
      refine Upholds.bind (upholds_fireBeforeHandlerGated sources _) fun answered _ => ?_
      split
      · exact upholds_materializeAndQueueResponse sources _
      · exact .bind (upholds_dispatchResourceHandler sources _) fun _ _ =>
          .bind (upholds_fireAfterHandlerGated sources _) fun _ _ =>
            upholds_materializeAndQueueResponse sources _
    · refine Upholds.bind (upholds_fireRouteResolvedGated _) fun _ _ => ?_
      refine Upholds.bind (?_ : Upholds P (emplaceNotFound env) fun _ => True) fun _ _ =>
        .bind (upholds_fireAfterHandlerGated sources _) fun _ _ =>
          upholds_materializeAndQueueResponse sources _
      refine Upholds.bind .getConn fun conn _ => ?_
      split
      · exact .pure trivial
      · exact .bind (upholds_notFoundPage sources) fun _ holds => .emplace holds

theorem upholds_finalizeAnswer (w : WireRequest) :
    Upholds P (finalizeAnswer env w) fun _ => True := by
  refine Upholds.bind (?_ : Upholds P (tryWsUpgrade env w) fun _ => True) fun upgraded _ => ?_
  · refine Upholds.bind .getConn fun conn _ => ?_
    split
    · exact .pure trivial
    · exact .bind (upholds_mhdQueue _) fun _ _ => .pure trivial
  · split
    · exact .pure trivial
    · refine Upholds.bind .getConn fun conn _ => ?_
      split
      · exact upholds_materializeAndQueueResponse sources _
      · exact upholds_answerRouted sources

theorem upholds_answerToConnection (w : WireRequest) (uploadData : Str) :
    Upholds P (answerToConnection env w uploadData) fun _ => True := by
  refine Upholds.bind .getConn fun conn _ => ?_
  split
  · unfold requestsAnswerSecondStep
    split
    · exact .bind (.setConn fun _ => rfl) fun _ _ => upholds_finalizeAnswer sources w
    · refine Upholds.bind .getConn fun conn _ => ?_
      split
      · exact .pure trivial
      · refine Upholds.bind (upholds_serverGate _) fun gate _ => ?_
        refine Upholds.bind (upholds_gatedChain gate (.bind .getConn fun conn _ =>
          .bind (.setConn fun _ => rfl) fun _ _ =>
            upholds_fireServer sources _ (showsOwn_of_blind fun _ => rfl))) fun action known => ?_
        split
        · exact .bind (upholds_shortCircuit (known _ rfl)) fun _ _ => .pure trivial
        · refine .bind (.setConn fun c => ?_) fun _ _ => .pure trivial
          split <;> rfl
  · refine Upholds.bind (.setConn fun _ => rfl) fun _ _ => ?_
    refine Upholds.bind (.setConn fun _ => rfl) fun _ _ => ?_
    refine Upholds.bind (upholds_serverGate _) fun gate _ => ?_
    refine Upholds.bind (upholds_gatedChain gate
      (upholds_fireServer sources _ (showsOwn_of_blind fun _ => rfl))) fun action known => ?_
    split
    · exact .bind (upholds_shortCircuit (known _ rfl)) fun _ _ => .pure trivial
    · refine .bind (.setConn fun c => ?_) fun _ _ => .pure trivial
      split <;> rfl

theorem upholds_deliver (w : WireRequest) (chunks : List Str) :
    Upholds P (deliver env w chunks) fun _ => True := by
  induction chunks with
  | nil => exact .pure trivial
  | cons chunk rest ih => exact .bind (upholds_answerToConnection sources w chunk) fun _ _ => ih

theorem upholds_serveToCompletion (w : WireRequest) (succeeded : Bool) :
    Upholds P (serveToCompletion env w succeeded) fun _ => True := by
  refine Upholds.bind (?_ : Upholds P (serve env w) fun _ => True) fun result _ =>
    .bind (upholds_fireRequestCompletedGated succeeded) fun _ _ => .pure trivial
  exact .bind (.bind (upholds_answerToConnection sources w []) fun _ _ =>
    upholds_deliver sources w _) fun _ _ => upholds_answerToConnection sources w []

theorem decorated_of_sources (w : WireRequest) (succeeded : Bool) {r : HttpResponse}
    (decorated : .decorate r ∈ (after (serveToCompletion env w succeeded) {}).history) : P r := by
  have start : Holds P {} := ⟨nofun, fun _ listed => absurd listed List.not_mem_nil⟩
  have final : Holds P (after (serveToCompletion env w succeeded) {}) :=
    spec_after (spec_post (upholds_serveToCompletion sources w succeeded) fun _ _ post => post.2)
      start
  exact final.decorated r decorated

end

structure UsesCalls (env : Env) : Prop where
  answers : ∀ h call a, env.answer h call = .ok a → ∀ r ∈ call.responses a, r.Obtained
  hooks : ∀ h call r, env.runHook h call = .respond r → r.Obtained
  edits : ∀ h call (r : HttpResponse), r.EditedTo (env.editResponse h call r)

theorem fieldsClean_page (text : Str) (code : Int) :
    HttpResponse.FieldsClean (.page text code) where
  headers := by
    refine List.forall_mem_singleton.mpr ⟨cleanText_of_all ?_, cleanText_of_all ?_⟩ <;> decide
  footers := cleanMap_nil
  cookies _ listed := absurd listed List.not_mem_nil

theorem fieldsClean_addAllow {r next : HttpResponse} (value : Str) (clean : r.FieldsClean)
    (added : addAllow r value = .ok next) : next.FieldsClean := by
  unfold addAllow at added
  split at added
  · cases added
    exact clean
  · exact clean.withHeader added

theorem UsesCalls.sources {env : Env} (calls : UsesCalls env) :
    Sources env HttpResponse.FieldsClean where
  constructed := .of_no_fields rfl rfl rfl
  page := fieldsClean_page
  empty500 := .of_no_fields rfl rfl rfl
  allow _ value _ := fieldsClean_addAllow value
  answers h call a answered r listed := (calls.answers h call a answered r listed).fieldsClean
  hooks h call r responded := (calls.hooks h call r responded).fieldsClean
  edits h call r := (calls.edits h call r).fieldsClean

/-- No header, footer or cookie line that reaches libmicrohttpd holds a line
    break or a NUL, whatever a program makes of its responses, and whichever of
    them a request is answered with. -/
theorem handed_over_fields_are_clean :
    (∀ r : HttpResponse, r.Obtained →
        ∀ left, ∀ call ∈ r.fieldCalls left, CleanText call.name ∧ CleanText call.value) ∧
      ∀ env w succeeded, UsesCalls env →
        ∀ r, .decorate r ∈ (after (serveToCompletion env w succeeded) {}).history →
          ∀ left, ∀ call ∈ r.fieldCalls left, CleanText call.name ∧ CleanText call.value := by
  constructor
  · intro r obtained
    exact obtained.fieldsClean.fieldCalls
  · intro env w succeeded calls r decorated
    exact (decorated_of_sources calls.sources w succeeded decorated).fieldCalls

def smugglingOps : List ResponseOp :=
  [.make 0 (.string "ok".toList "text/plain".toList),
    .withHeader 0 "X-Note".toList "a\r\nSet-Cookie: sid=1".toList,
    .withCookiePair 0 "sid".toList "7".toList, .move 1 0]

def smugglingEnv : Env :=
  { Env.quiet {} with
    answer := fun _ call => match call with
      | .render .. => .ok (Responses.run (fun _ => {}) smugglingOps 1)
      | call => quietAnswer call }

theorem obtained_okPage : okPage.Obtained :=
  ⟨[.make 0 (.string "ok".toList "text/plain".toList)], 0, rfl⟩

theorem smugglingEnv_usesCalls : UsesCalls smugglingEnv where
  answers _ call a answered r listed := by
    cases call with
    | render resource method request =>
      cases answered
      exact ⟨smugglingOps, 1, List.mem_singleton.mp listed⟩
    | authHandler request =>
      cases answered
      cases listed
    | notFoundHandler _ | methodNotAllowedHandler _ _ | internalErrorHandler _ _ _ =>
      cases answered
      exact List.mem_singleton.mp listed ▸ obtained_okPage
    | logError message | logAccess line => cases listed
  hooks _ _ _ := nofun
  edits _ _ _ := ⟨[], rfl⟩

theorem smuggled_line_is_not_handed_over :
    ∃ r, .decorate r ∈ (after (serveToCompletion smugglingEnv plainRequest true) {}).history ∧
      r.fieldCalls untouchedTm = [.header "Content-Type".toList "text/plain".toList,
        .header "Set-Cookie".toList "sid=7".toList] ∧
      ∀ left, ∀ call ∈ r.fieldCalls left, CleanText call.name ∧ CleanText call.value := by
  have decorated : .decorate (Responses.run (fun _ => {}) smugglingOps 1) ∈
      (after (serveToCompletion smugglingEnv plainRequest true) {}).history := by
    refine List.mem_of_getElem? (i := 10) ?_
    rfl
  refine ⟨_, decorated, by decide, ?_⟩
  exact handed_over_fields_are_clean.2 _ _ _ smugglingEnv_usesCalls _ decorated

end HttpServer
