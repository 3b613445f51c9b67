import HttpServer.Lib.Chain
import HttpServer.RequestRun

/-!
The three phases whose hooks can answer behind routing. Each runs the
server-wide hooks and then those of the matched resource. Within one list the
first response ends the chain. Between the two lists `before_handler` and
`handler_exception` stop at a response, and `after_handler` goes on. The slot of
`internal_error_handler` stands at the end of the server-wide list of
`handler_exception`, so that the hooks of a resource come behind it.
-/
namespace HttpServer
open Effect Chain

inductive Link where
  | hook (scope : HookScope) (fn : HookFn)
  | internalErrorHandler
  deriving DecidableEq, Repr

def HookOutcome.response : HookOutcome → Option HttpResponse
  | .respond r => some r
  | _ => none

def Event.invocation (phase : HookPhase) : Event → Option (Link × Option HttpResponse)
  | .hook call result =>
    if call.ctx.phase = phase then some (.hook call.scope call.fn, result.response) else none
  | .called (.internalErrorHandler ..) answer =>
    if phase = .handlerException then some (.internalErrorHandler, answer.toOption) else none
  | _ => none

def invocations (phase : HookPhase) (h : History) : List (Link × Option HttpResponse) :=
  h.filterMap (Event.invocation phase)

namespace HookState
variable (st : HookState)

def serverLinks (phase : HookPhase) : List Link :=
  (st.bus.table.hooks phase).map fun slot => .hook .server slot.fn

def routeLinks (hrm : Handler) (phase : HookPhase) : List Link :=
  ((st.hookTableRaw hrm).map fun t => (t.hooks phase).map fun slot =>
    Link.hook .route slot.fn).getD []

def slotLinks (phase : HookPhase) : List Link :=
  if phase = .handlerException ∧ st.bus.handlerExceptionAlias = true then [.internalErrorHandler]
  else []

def chain (hrm : Handler) (phase : HookPhase) : List Link :=
  st.serverLinks phase ++ st.slotLinks phase ++ st.routeLinks hrm phase

end HookState

/-- The resource `handle_dispatch_exception` finds is the matched one, or none
    when the matched one has no hooks. -/
def Stamped (st : HookState) (hrm : Handler) (weak : Option Handler) : Prop :=
  weak = some hrm ∨ weak = none ∧ st.hookTableRaw hrm = none

inductive ChainPhase where
  | beforeHandler
  | handlerException (exception : Exc)
  | afterHandler
  deriving DecidableEq, Repr

namespace ChainPhase

def phase : ChainPhase → HookPhase
  | .beforeHandler => .beforeHandler
  | .handlerException _ => .handlerException
  | .afterHandler => .afterHandler

def fire (env : Env) (hrm : Handler) : ChainPhase → DispatchM Unit
  | .beforeHandler => do
    let _ ← fireBeforeHandlerGated env hrm
    pure ()
  | .handlerException exception => handleDispatchException env exception
  | .afterHandler => fireAfterHandlerGated env (some hrm)

def Reached (st : HookState) (hrm : Handler) (c : Conn) : ChainPhase → Prop
  | .beforeHandler => True
  | .handlerException _ => Stamped st hrm c.resourceWeak
  | .afterHandler => c.response.isSome = true

end ChainPhase

/-- The calls go along the links up to the first response, which the connection
    keeps. -/
def EndsAtFirstResponse (links : List Link) (calls : List (Link × Option HttpResponse))
    (c : Conn) : Prop :=
  ∃ answer, FirstAnswer links calls answer ∧ ∀ r, answer = some r → c.response = some r

def HookBus.slots (b : HookBus) : Bool × Bool := (b.handlerExceptionAlias, b.logAccessAlias)

theorem slots_remove (b : HookBus) (phase : HookPhase) (slotId : Nat) :
    (b.remove phase slotId).slots = b.slots := by
  unfold HookBus.remove
  split
  · rfl
  · rfl

theorem slots_removeHandle (st : HookState) (name : Nat) :
    (st.removeHandle name).bus.slots = st.bus.slots := by
  unfold HookState.removeHandle
  dsimp only
  split
  · rfl
  · split
    · exact slots_remove _ _ _
    · split
      · rfl
      · rfl

theorem slots_kept (slots : Bool × Bool) : HookState.Kept fun st => st.bus.slots = slots where
  pushed _ _ _ same := same
  ensured resource same := by
    unfold HookState.ensureTable
    split
    · exact same
    · exact same
  pushedRoute _ _ _ _ same := same
  moved _ _ same := same
  removed name same := (slots_removeHandle _ name).trans same
  detached _ _ same := same
  cleared _ same := same
  disowned _ same := same

theorem slots_installed (cfg : WebserverConfig) :
    (installDefaultAliasHooks cfg).slots = (cfg.internalErrorHandler, cfg.logAccess) := by
  unfold installDefaultAliasHooks
  cases cfg.authHandler <;> cases cfg.methodNotAllowedHandler <;> cases cfg.notFoundHandler <;>
    cases cfg.internalErrorHandler <;> cases cfg.logAccess <;> rfl

theorem slots_of_reachable {cfg : WebserverConfig} {st : HookState}
    (reachable : HookState.Reachable cfg st) :
    st.bus.slots = (cfg.internalErrorHandler, cfg.logAccess) :=
  reachable.invariant (I := fun st => st.bus.slots = _) (slots_installed cfg) fun _ op same =>
    (slots_kept _).step same op

section
variable {env : Env} {phase : HookPhase} {old : List (Link × Option HttpResponse)}
  {E : Exc → Session → Prop}

theorem invocations_append (phase : HookPhase) (h new : History) :
    invocations phase (h ++ new) = invocations phase h ++ invocations phase new :=
  List.filterMap_append

def invocationKinds (phase : HookPhase) : List EventKind :=
  [.hook phase, .internalErrorHandler .hookAlias, .internalErrorHandler .errorPage]

theorem invocation_of_other {e : Event} (other : e.kind ∉ invocationKinds phase) :
    e.invocation phase = none := by
  unfold Event.invocation
  split
  · rename_i call result
    rw [if_neg]
    rintro rfl
    exact other (by simp [invocationKinds, Event.kind])
  · rename_i site req message answer
    cases site with
    | hookAlias => exact absurd (by simp [invocationKinds, Event.kind, UserCall.kind]) other
    | errorPage => exact absurd (by simp [invocationKinds, Event.kind, UserCall.kind]) other
  · rfl

theorem invocations_of_other {new : History} (other : ∀ e ∈ new, e.kind ∉ invocationKinds phase) :
    invocations phase new = [] := by
  rw [invocations, List.filterMap_eq_nil_iff]
  exact fun e listed => invocation_of_other (other e listed)

section
variable {α γ : Type} {view : Conn → γ} {kinds : EventKind → Prop} {x : DispatchM α}

theorem invocations_emits (emits : EmitsOnly view kinds x)
    (other : ∀ k ∈ invocationKinds phase, ¬kinds k) :
    Spec (fun s => invocations phase s.history = old) x
      (fun _ s => invocations phase s.history = old)
      fun _ s => invocations phase s.history = old := by
  refine emits.history_spec (I := fun h => invocations phase h = old) fun h new same sound => ?_
  rw [invocations_append, same, invocations_of_other, List.append_nil]
  exact fun e listed watched => other e.kind watched (sound e listed)

theorem invocations_calm (calm : Calm view kinds x)
    (other : ∀ k ∈ invocationKinds phase, ¬kinds k) :
    Spec (fun s => invocations phase s.history = old) x
      (fun _ s => invocations phase s.history = old) E :=
  spec_of_returns (invocations_emits calm.emits other) calm.returns

end

theorem invocations_logDispatchError (msg : Str) :
    Spec (fun s => invocations phase s.history = old) (logDispatchError env msg)
      (fun _ s => invocations phase s.history = old) E := by
  exact invocations_calm (calm_logDispatchError env _) (by simp [invocationKinds])

theorem invocations_hookAction {call : HookCall} (fires : call.ctx.phase = phase) :
    Spec (fun s => invocations phase s.history = old) (hookAction env call)
      (fun action s =>
        invocations phase s.history = old ++ [(.hook call.scope call.fn, action)])
      fun _ s => invocations phase s.history = old ++ [(.hook call.scope call.fn, none)] := by
  have written (result : HookOutcome) (h : History) (same : invocations phase h = old) :
      invocations phase (h ++ [.hook call result]) =
        old ++ [(.hook call.scope call.fn, result.response)] := by
    rw [invocations_append, same]
    simp [invocations, Event.invocation, fires]
  refine spec_hookAction env (invocations_emits (emits_actionBody env call)
    (by simp [invocationKinds])) ?_ ?_
  · intro action s same
    rw [written _ _ same]
    cases action with
    | none => rfl
    | some r => rfl
  · intro e s same
    rw [written _ _ same]
    rfl

def RanTo (phase : HookPhase) (old : List (Link × Option HttpResponse)) (links : List Link)
    (answer : Option HttpResponse) (s : Session) : Prop :=
  ∃ calls, invocations phase s.history = old ++ calls ∧ FirstAnswer links calls answer

theorem invocations_sharedRead {h : History} (same : invocations phase h = old) :
    invocations phase (h ++ [.sharedRead]) = old := by
  rw [invocations_append, same]
  exact List.append_nil old

variable {links : List Link} {s : Session}

theorem ranTo_nil (same : invocations phase s.history = old) :
    RanTo phase old [] none s := ⟨[], by rw [same, List.append_nil], .nil⟩

variable {r : HttpResponse} {gate : Bool}

theorem RanTo.stop (ran : RanTo phase old links (some r) s) (more : List Link) :
    RanTo phase old (links ++ more) (some r) s := by
  obtain ⟨calls, made, runs⟩ := ran
  exact ⟨calls, made, runs.stop more⟩

theorem spec_ranTo {x : DispatchM (Option HttpResponse)} {more : List Link}
    (next : ∀ old, Spec (fun s => invocations phase s.history = old) x
      (fun answer s => RanTo phase old more answer s) E) :
    Spec (RanTo phase old links none) x (RanTo phase old (links ++ more)) E := by
  refine spec_exists fun calls => ?_
  intro s start
  obtain ⟨ok, error⟩ := next _ s start.1
  refine ⟨fun answer run => ?_, error⟩
  obtain ⟨later, made, runs⟩ := ok answer run
  exact ⟨calls ++ later, by rw [made, List.append_assoc], start.2.append runs⟩

theorem ranTo_fireShortCircuit (scope : HookScope) {ctx : Conn → HookCtx}
    (fires : ∀ c, (ctx c).phase = phase) (fns : List HookFn) :
    Spec (fun s => invocations phase s.history = old) (fireShortCircuit env scope ctx fns)
      (RanTo phase old (fns.map (.hook scope))) E := by
  induction fns generalizing old with
  | nil => exact spec_pure fun _ same => ranTo_nil same
  | cons fn rest ih =>
    refine spec_bind spec_getConn_frame fun conn => ?_
    refine spec_bind (M := RanTo phase old [.hook scope fn]) (spec_tryCatch (spec_adapt
      (@invocations_hookAction env phase old ⟨scope, fn, conn.request, ctx conn⟩ (fires conn))
      (fun _ start => start) ?_) fun e => ?_) fun action => ?_
    · exact fun action s made => ⟨_, made, .single _ action⟩
    · refine spec_bind (invocations_logDispatchError _) fun _ => ?_
      exact spec_pure fun s made => ⟨_, made, .single _ none⟩
    · cases action with
      | some r => exact spec_pure fun s ran => ran.stop _
      | none => exact spec_ranTo fun old => ih

theorem nothing_behind (opens : links ≠ [] → gate = true) (closed : gate = false) : links = [] := by
  by_contra something
  rw [opens something] at closed
  cases closed

theorem ranTo_gatedChain {chain : DispatchM (Option HttpResponse)}
    (opens : links ≠ [] → gate = true)
    (fires : Spec (fun s => invocations phase s.history = old) chain (RanTo phase old links) E) :
    Spec (fun s => invocations phase s.history = old) (gatedChain gate chain)
      (RanTo phase old links) E := by
  cases gate with
  | true => exact fires
  | false =>
    rw [nothing_behind opens rfl]
    exact spec_pure fun _ same => ranTo_nil same

def Keeps (phase : HookPhase) (old : List (Link × Option HttpResponse)) (links : List Link)
    (s : Session) : Prop :=
  ∃ answer, RanTo phase old links answer s ∧ ∀ r, answer = some r → s.conn.response = some r

theorem Keeps.nothing (ran : RanTo phase old links none s) :
    Keeps phase old links s := ⟨none, ran, fun _ same => absurd same (Option.some_ne_none _).symm⟩

theorem Keeps.response (ran : RanTo phase old links (some r) s) (kept : s.conn.response = some r) :
    Keeps phase old links s := ⟨some r, ran, fun _ same => same ▸ kept⟩

end

theorem calm_errorPage_unwired {env : Env} (unwired : env.config.internalErrorHandler = false)
    (msg : Str) : Calm Conn.apart (· = .logError) (runInternalErrorHandlerSafely env msg) := by
  refine .tryCatch (.bind Calm.getConn.emits fun conn => ?_) fun _ =>
    .bind (.logDispatchError env _ rfl) fun _ => .pure _
  rw [if_neg (by simp [unwired])]
  split
  · exact .pure _
  · exact .pure _

section
variable {env : Env} {st : HookState} (steady : ∀ h, env.hooksAt h = st) {phase : HookPhase}
  {old : List (Link × Option HttpResponse)} {E : Exc → Session → Prop}
include steady

variable {P : Session → Prop} {weak : Option Handler}

theorem spec_readHooksSteady
    (blind : ∀ s : Session, P s → P { s with history := s.history ++ [.sharedRead] }) :
    Spec P (readHooks env) (fun a s => a = st ∧ P s) E :=
  spec_readHooks env fun s start => ⟨steady s.history, blind s start⟩

theorem spec_readSteady {α : Type} (pick : HookState → α)
    (blind : ∀ s : Session, P s → P { s with history := s.history ++ [.sharedRead] }) :
    Spec P (do
        let st ← readHooks env
        pure (pick st))
      (fun a s => a = pick st ∧ P s) E :=
  spec_readFixed env pick (fun h => congrArg pick (steady h)) blind

variable {hrm : Handler} {ctx : Conn → HookCtx}

theorem ranTo_fireServer (fires : ∀ c, (ctx c).phase = phase) :
    Spec (fun s => invocations phase s.history = old) (fireServer env phase ctx)
      (RanTo phase old (st.serverLinks phase)) E := by
  refine spec_bind (spec_readSteady steady _ fun _ => invocations_sharedRead) fun fns => spec_assume fun listed => ?_
  have named : st.serverLinks phase = fns.map (.hook .server) := by
    rw [listed, List.map_map]
    rfl
  rw [named]
  exact ranTo_fireShortCircuit .server fires fns

omit steady in
theorem routeLinks_eq (hrm : Handler) : st.routeLinks hrm phase =
    (((st.hookTableRaw hrm).map fun t => (t.hooks phase).map (·.fn)).getD []).map
      (.hook .route) := by
  unfold HookState.routeLinks
  cases st.hookTableRaw hrm with
  | none => rfl
  | some t => simp

theorem ranTo_fireRoute (hrm : Handler) (fires : ∀ c, (ctx c).phase = phase) :
    Spec (fun s => invocations phase s.history = old) (fireRoute env hrm phase ctx)
      (RanTo phase old (st.routeLinks hrm phase)) E := by
  refine spec_bind (spec_readSteady steady _ fun _ => invocations_sharedRead) fun fns => spec_assume fun listed => ?_
  rw [routeLinks_eq, ← listed]
  exact ranTo_fireShortCircuit .route fires fns

omit steady in
theorem server_gate_opens (some_ : st.serverLinks phase ≠ []) : st.bus.hasHooksFor phase = true :=
  st.bus.table.gated phase fun none_ => some_ (by rw [HookState.serverLinks, none_, List.map_nil])

omit steady in
theorem route_gate_opens (some_ : st.routeLinks hrm phase ≠ []) :
    (((some hrm).bind st.hookTableRaw).map fun t => t.gate phase).getD false = true := by
  rw [Option.bind_some]
  unfold HookState.routeLinks at some_
  cases table : st.hookTableRaw hrm with
  | none =>
    rw [table] at some_
    exact absurd rfl some_
  | some t =>
    refine t.gated phase fun none_ => some_ ?_
    rw [table, Option.map_some, Option.getD_some, none_, List.map_nil]

theorem keeps_beforeHandler (hrm : Handler) :
    Spec (fun s => invocations .beforeHandler s.history = old)
      (ChainPhase.beforeHandler.fire env hrm)
      (fun _ s => Keeps .beforeHandler old (st.chain hrm .beforeHandler) s) E := by
  have lists : st.chain hrm .beforeHandler =
      st.serverLinks .beforeHandler ++ st.routeLinks hrm .beforeHandler := by
    simp [HookState.chain, HookState.slotLinks]
  rw [lists]
  refine spec_bind (M := fun _ s => Keeps .beforeHandler old _ s) ?_ fun _ =>
    spec_pure fun _ post => post
  refine spec_bind (spec_readSteady steady _ fun _ => invocations_sharedRead) fun server =>
    spec_assume fun serverGate => ?_
  refine spec_bind (spec_readSteady steady _ fun _ => invocations_sharedRead) fun route =>
    spec_assume fun routeGate => ?_
  have serverOpens : st.serverLinks .beforeHandler ≠ [] → server = true :=
    fun some_ => serverGate.trans (server_gate_opens some_)
  have routeOpens : st.routeLinks hrm .beforeHandler ≠ [] → route = true :=
    fun some_ => routeGate.trans (route_gate_opens some_)
  split
  · rename_i closed
    rw [nothing_behind serverOpens (by grind), nothing_behind routeOpens (by grind)]
    exact spec_pure fun s same => .nothing (ranTo_nil same)
  · have described : Calm Conn.apart (· = .sharedRead) (beforeHandlerDescriptor env hrm) :=
      @calm_beforeHandlerDescriptor env (· = .sharedRead) rfl hrm
    refine spec_bind (invocations_calm described (by simp [invocationKinds])) fun desc => ?_
    refine spec_bind (ranTo_gatedChain serverOpens (ranTo_fireServer steady fun _ => rfl))
      fun sc => ?_
    cases sc with
    | some r =>
      refine spec_bind (M := fun _ s => Keeps .beforeHandler old _ s)
        (spec_modify fun s ran => ?_) fun _ => spec_pure fun _ post => post
      exact .response (ran.stop _) rfl
    | none =>
      refine spec_bind (spec_ranTo fun old => ranTo_gatedChain routeOpens
        (ranTo_fireRoute steady hrm fun _ => rfl)) fun sc => ?_
      cases sc with
      | some r =>
        refine spec_bind (M := fun _ s => Keeps .beforeHandler old _ s)
          (spec_modify fun s ran => ?_) fun _ => spec_pure fun _ post => post
        exact .response ran rfl
      | none => exact spec_pure fun s ran => .nothing ran

omit steady in
theorem ranTo_internalErrorSlot (message : Str) :
    Spec (fun s => invocations .handlerException s.history = old)
      (fireHandlerExceptionAlias env message)
      (RanTo .handlerException old [.internalErrorHandler]) E := by
  refine spec_bind spec_getConn_frame fun conn => ?_
  have written (answer : Except Exc HttpResponse) (h : History)
      (same : invocations .handlerException h = old) :
      invocations .handlerException
        (h ++ [.called (.internalErrorHandler .hookAlias conn.req message) answer]) =
          old ++ [(.internalErrorHandler, answer.toOption)] := by
    rw [invocations_append, same]
    rfl
  refine spec_tryCatch (M := fun _ s => invocations .handlerException s.history =
    old ++ [(.internalErrorHandler, none)]) (spec_bind (M := fun r s =>
      invocations .handlerException s.history = old ++ [(.internalErrorHandler, some r)])
      (spec_callUser env ?_ ?_) fun r => ?_) fun e => ?_
  · exact fun s r same => written (.ok r) s.history same
  · exact fun s e same => written (.error e) s.history same
  · exact spec_pure fun s made => ⟨_, made, .single _ (some r)⟩
  · refine spec_bind (invocations_logDispatchError _) fun _ => ?_
    exact spec_pure fun s made => ⟨_, made, .single _ none⟩

theorem ranTo_fireHandlerException (exception : Exc) (message : Str) :
    Spec (fun s => invocations .handlerException s.history = old)
      (fireHandlerException env exception message)
      (RanTo .handlerException old
        (st.serverLinks .handlerException ++ st.slotLinks .handlerException)) E := by
  refine spec_bind (spec_readHooksSteady steady fun _ => invocations_sharedRead) fun now =>
    spec_assume fun same => ?_
  rw [same]
  have named : st.serverLinks .handlerException =
      ((st.bus.table.hooks .handlerException).map (·.fn)).map (.hook .server) := by
    rw [List.map_map]
    rfl
  rw [named]
  refine spec_bind (ranTo_fireShortCircuit .server (fun _ => by rfl) _) fun sc => ?_
  cases sc with
  | some r => exact spec_pure fun s ran => ran.stop _
  | none =>
    refine spec_ranTo fun old => ?_
    dsimp only
    split
    · rename_i wired
      rw [HookState.slotLinks, if_pos ⟨rfl, wired⟩]
      exact ranTo_internalErrorSlot message
    · rename_i unwired
      rw [HookState.slotLinks, if_neg fun both => unwired both.2]
      exact spec_pure fun s same => ranTo_nil same

theorem ranTo_fireWeak (stamped : Stamped st hrm weak) (fires : ∀ c, (ctx c).phase = phase) :
    Spec (fun s => invocations phase s.history = old) (fireRouteIfSome env weak phase ctx)
      (RanTo phase old (st.routeLinks hrm phase)) E := by
  rcases stamped with rfl | ⟨rfl, bare⟩
  · exact ranTo_fireRoute steady hrm fires
  · have nothing : st.routeLinks hrm phase = [] := by
      rw [HookState.routeLinks, bare]
      rfl
    rw [nothing]
    exact spec_pure fun s same => ranTo_nil same

omit steady in
theorem weak_gate_opens (stamped : Stamped st hrm weak) (some_ : st.routeLinks hrm phase ≠ []) :
    ((weak.bind st.hookTableRaw).map fun t => t.gate phase).getD false = true := by
  rcases stamped with rfl | ⟨rfl, bare⟩
  · exact route_gate_opens some_
  · exact absurd (by rw [HookState.routeLinks, bare]; rfl) some_

def Answered (old : List (Link × Option HttpResponse)) (links : List Link) (s : Session) : Prop :=
  ∃ answer, RanTo .handlerException old links answer s ∧
    (links ≠ [] → s.conn.response = some (answer.getD .empty500))

theorem answered_answerException (reachable : HookState.Reachable env.config st) (exception : Exc) :
    Spec (fun s => Stamped st hrm s.conn.resourceWeak ∧
        invocations .handlerException s.history = old)
      (answerException env exception)
      (fun _ s => Answered old (st.chain hrm .handlerException) s) E := by
  refine spec_getConn_bind (K := fun conn => Stamped st hrm conn.resourceWeak)
    (fun s start => start) fun conn stamped => ?_
  refine spec_bind (spec_readSteady steady _ fun _ => invocations_sharedRead) fun route =>
    spec_assume fun routeGate => ?_
  refine spec_bind (spec_readHooksSteady steady fun _ => invocations_sharedRead) fun now =>
    spec_assume fun same => ?_
  rw [same]
  have routeOpens : st.routeLinks hrm .handlerException ≠ [] → route = true :=
    fun some_ => routeGate.trans (weak_gate_opens stamped some_)
  have serverOpens : st.serverLinks .handlerException ++ st.slotLinks .handlerException ≠ [] →
      (st.bus.hasHooksFor .handlerException || st.bus.handlerExceptionAlias) = true := by
    intro some_
    rw [Bool.or_eq_true]
    by_contra neither
    have closed := not_or.mp neither
    refine some_ ?_
    rw [HookState.slotLinks, if_neg fun both => closed.2 both.2, List.append_nil]
    exact by_contra fun some_ => closed.1 (server_gate_opens some_)
  dsimp only
  split
  · refine spec_bind (M := RanTo .handlerException old (st.chain hrm .handlerException)) ?_
      fun sc => spec_modify fun s ran => ⟨sc, ran, fun _ => rfl⟩
    refine spec_bind (ranTo_gatedChain serverOpens
      (ranTo_fireHandlerException steady exception exception.message)) fun sc => ?_
    cases sc with
    | some r => exact spec_pure fun s ran => ran.stop _
    | none =>
      exact spec_ranTo fun old => ranTo_gatedChain routeOpens
        (ranTo_fireWeak steady stamped fun _ => rfl)
  · rename_i closed
    rw [Bool.or_eq_true, not_or, Bool.not_eq_true, Bool.not_eq_true] at closed
    have nothing : st.chain hrm .handlerException = [] := by
      rw [HookState.chain, nothing_behind serverOpens closed.1, nothing_behind routeOpens closed.2,
        List.append_nil]
    rw [nothing]
    -- no hooks and no slot, so `internal_error_handler` is not configured either
    have slot : st.bus.handlerExceptionAlias = env.config.internalErrorHandler :=
      congrArg Prod.fst (slots_of_reachable reachable)
    have unwired := slot.symm.trans (Bool.or_eq_false_iff.mp closed.1).2
    have page := calm_errorPage_unwired unwired exception.message
    refine spec_bind (invocations_calm page (by simp [invocationKinds])) fun r =>
      spec_modify fun s same => ?_
    exact ⟨none, ranTo_nil same, fun some_ => absurd rfl some_⟩

theorem answered_handleDispatchException (reachable : HookState.Reachable env.config st)
    (exception : Exc) :
    Spec (fun s => Stamped st hrm s.conn.resourceWeak ∧
        invocations .handlerException s.history = old)
      (handleDispatchException env exception)
      (fun _ s => Answered old (st.chain hrm .handlerException) s) E := by
  refine spec_bind (M := fun _ s => Stamped st hrm s.conn.resourceWeak ∧
    invocations .handlerException s.history = old) (spec_emit fun s start => ?_) fun _ =>
      answered_answerException steady reachable exception
  refine ⟨start.1, ?_⟩
  rw [invocations_append, start.2]
  exact List.append_nil old

omit steady in
theorem Answered.keeps {links : List Link} {s : Session} (answered : Answered old links s) :
    Keeps .handlerException old links s := by
  obtain ⟨answer, ⟨calls, made, runs⟩, kept⟩ := answered
  refine ⟨answer, ⟨calls, made, runs⟩, fun r same => ?_⟩
  subst same
  obtain ⟨i, listed, -⟩ := runs.answered
  exact kept (List.ne_nil_of_mem listed)

/-- What `after_handler` leaves: the two lists are run one after the other,
    whatever the first one came to. -/
def RanBoth (old : List (Link × Option HttpResponse)) (server route : List Link) (s : Session) :
    Prop :=
  ∃ calls later first second,
    invocations .afterHandler s.history = old ++ (calls ++ later) ∧
    FirstAnswer server calls first ∧ FirstAnswer route later second ∧
    (∀ r, second = some r → s.conn.response = some r) ∧
    (route = [] → ∀ r, first = some r → s.conn.response = some r)

theorem response_fireRoute {hrm : Handler} (bare : st.routeLinks hrm phase = []) (gate : Bool)
    (ctx : Conn → HookCtx) (response : Option HttpResponse) :
    Spec (fun s => s.conn.response = response)
      (gatedChain gate (fireRouteIfSome env (some hrm) phase ctx))
      (fun _ s => s.conn.response = response) E := by
  cases gate with
  | false => exact spec_pure fun _ same => same
  | true =>
    refine spec_bind (spec_readSteady steady _ fun _ same => same) fun fns =>
      spec_assume fun listed => ?_
    rw [routeLinks_eq, ← listed, List.map_eq_nil_iff] at bare
    rw [bare]
    exact spec_pure fun _ same => same

def CalledBoth (old : List (Link × Option HttpResponse)) (server route : List Link)
    (first second : Option HttpResponse) (s : Session) : Prop :=
  ∃ calls later, invocations .afterHandler s.history = old ++ (calls ++ later) ∧
    FirstAnswer server calls first ∧ FirstAnswer route later second ∧
    (route = [] → ∀ r, first = some r → s.conn.response = some r)

theorem calledBoth_fireRoute {route : Bool} {first : Option HttpResponse}
    (opens : st.routeLinks hrm .afterHandler ≠ [] → route = true) :
    Spec (fun s => RanTo .afterHandler old (st.serverLinks .afterHandler) first s ∧
        ∀ r, first = some r → s.conn.response = some r)
      (gatedChain route (fireRouteIfSome env (some hrm) .afterHandler afterHandlerCtx))
      (fun second => CalledBoth old (st.serverLinks .afterHandler)
        (st.routeLinks hrm .afterHandler) first second) E := by
  rintro s ⟨⟨calls, made, runs⟩, kept⟩
  have chain : Spec (fun s => invocations .afterHandler s.history = old ++ calls)
      (gatedChain route (fireRouteIfSome env (some hrm) .afterHandler afterHandlerCtx)) _ E :=
    ranTo_gatedChain opens (ranTo_fireRoute steady hrm fun _ => rfl)
  obtain ⟨ok, error⟩ := chain s made
  refine ⟨fun second run => ?_, error⟩
  obtain ⟨later, more, next⟩ := ok second run
  refine ⟨calls, later, by rw [more, List.append_assoc], runs, next, fun bare r same => ?_⟩
  have unchanged := @response_fireRoute env st steady .afterHandler E hrm bare route
    afterHandlerCtx s.conn.response
  exact ((unchanged s rfl).1 second run).trans (kept r same)

theorem ranBoth_afterHandler (hrm : Handler) :
    Spec (fun s => s.conn.response.isSome = true ∧ invocations .afterHandler s.history = old)
      (fireAfterHandlerGated env (some hrm))
      (fun _ s => RanBoth old (st.serverLinks .afterHandler) (st.routeLinks hrm .afterHandler) s)
      E := by
  refine spec_bind (spec_readSteady steady _ fun s start => ⟨start.1,
    invocations_sharedRead start.2⟩) fun server => spec_assume fun serverGate => ?_
  refine spec_bind (spec_readSteady steady _ fun s start => ⟨start.1,
    invocations_sharedRead start.2⟩) fun route => spec_assume fun routeGate => ?_
  refine spec_getConn_bind (K := fun conn => conn.response.isSome = true) (fun s start => start)
    fun conn present => ?_
  have serverOpens : st.serverLinks .afterHandler ≠ [] → server = true :=
    fun some_ => serverGate.trans (server_gate_opens some_)
  have routeOpens : st.routeLinks hrm .afterHandler ≠ [] → route = true :=
    fun some_ => routeGate.trans (route_gate_opens some_)
  rw [Option.isNone_eq_false_iff.mpr present, Bool.or_false]
  split
  · rename_i closed
    rw [nothing_behind serverOpens (by grind), nothing_behind routeOpens (by grind)]
    refine spec_pure fun s same => ⟨[], [], none, none, ?_, .nil, .nil, ?_, ?_⟩
    · rw [same]
      exact (List.append_nil old).symm
    · exact fun r none_ => absurd none_ (Option.some_ne_none r).symm
    · exact fun _ r none_ => absurd none_ (Option.some_ne_none r).symm
  · refine spec_bind (ranTo_gatedChain serverOpens (ranTo_fireServer steady fun _ => rfl))
      fun first => ?_
    refine spec_bind (M := fun _ s => RanTo .afterHandler old (st.serverLinks .afterHandler) first s ∧
      ∀ r, first = some r → s.conn.response = some r) ?_ fun _ => ?_
    · cases first with
      | none => exact spec_pure fun s ran => ⟨ran, fun r none_ => absurd none_ (by simp)⟩
      | some r => exact spec_modify fun s ran => ⟨ran, fun _ same => same ▸ rfl⟩
    refine spec_bind (calledBoth_fireRoute steady routeOpens) fun second => ?_
    cases second with
    | none =>
      refine spec_pure fun s start => ?_
      obtain ⟨calls, later, made, runs, next, kept⟩ := start
      exact ⟨calls, later, first, none, made, runs, next, fun r none_ => absurd none_ (by simp),
        kept⟩
    | some r =>
      refine spec_modify fun s start => ?_
      obtain ⟨calls, later, made, runs, next, -⟩ := start
      refine ⟨calls, later, first, some r, made, runs, next, fun _ same => same ▸ rfl,
        fun bare => ?_⟩
      obtain ⟨i, listed, -⟩ := next.answered
      rw [bare] at listed
      cases listed

end

theorem invocations_since {α γ : Type} {view : Conn → γ} {kinds : EventKind → Prop}
    {x : DispatchM α} (emits : EmitsOnly view kinds x) (phase : HookPhase) (s : Session) :
    invocations phase (after x s).history = invocations phase s.history ++
      invocations phase ((after x s).history.drop s.history.length) := by
  obtain ⟨⟨new, whole, -⟩, -⟩ := emits s
  rw [whole, List.drop_left, invocations_append]

theorem emits_fire (env : Env) (hrm : Handler) (point : ChainPhase) :
    EmitsOnly Conn.apart (fun _ => True) (point.fire env hrm) := by
  cases point with
  | beforeHandler =>
    exact .bind ((calm_fireBeforeHandlerGated env hrm).emits.mono fun _ _ => trivial) fun _ =>
      .pure _
  | handlerException e => exact (calm_handleDispatchException env e).emits.mono fun _ _ => trivial
  | afterHandler =>
    exact (calm_fireAfterHandlerGated env (some hrm)).emits.mono fun _ _ => trivial

theorem Keeps.ends {phase : HookPhase} {old calls : List (Link × Option HttpResponse)}
    {links : List Link} {s : Session} (keeps : Keeps phase old links s)
    (made : invocations phase s.history = old ++ calls) :
    EndsAtFirstResponse links calls s.conn := by
  obtain ⟨answer, ⟨calls', made', runs⟩, kept⟩ := keeps
  rw [List.append_cancel_left (made'.symm.trans made)] at runs
  exact ⟨answer, runs, kept⟩

section
variable {st : HookState} {hrm : Handler} {phase : HookPhase} {link : Link}

theorem server_of_mem (listed : link ∈ st.serverLinks phase) : ∃ fn, link = .hook .server fn := by
  obtain ⟨slot, -, rfl⟩ := List.mem_map.mp listed
  exact ⟨slot.fn, rfl⟩

theorem route_of_mem (listed : link ∈ st.routeLinks hrm phase) : ∃ fn, link = .hook .route fn := by
  rw [routeLinks_eq] at listed
  obtain ⟨fn, -, rfl⟩ := List.mem_map.mp listed
  exact ⟨fn, rfl⟩

theorem slot_of_mem (listed : link ∈ st.slotLinks phase) : link = .internalErrorHandler := by
  unfold HookState.slotLinks at listed
  split at listed
  · exact List.mem_singleton.mp listed
  · cases listed

theorem RanBoth.ends_iff {old calls : List (Link × Option HttpResponse)} {s : Session}
    (ran : RanBoth old (st.serverLinks phase) (st.routeLinks hrm phase) s)
    (made : invocations .afterHandler s.history = old ++ calls) :
    EndsAtFirstResponse (st.serverLinks phase ++ st.routeLinks hrm phase) calls s.conn ↔
      (∀ fn r, (Link.hook .server fn, some r) ∉ calls) ∨ st.routeLinks hrm phase = [] := by
  obtain ⟨early, late, first, second, made', runs, next, kept, bareKept⟩ := ran
  have parts : calls = early ++ late := List.append_cancel_left (made.symm.trans made')
  subst parts
  constructor
  · rintro ⟨answer, whole, -⟩
    by_contra broken
    obtain ⟨responds, some_⟩ := not_or.mp broken
    push Not at responds
    obtain ⟨fn, r, called⟩ := responds
    rcases List.mem_append.mp called with here | there
    · exact next.ne_nil some_ (whole.not_behind here)
    · obtain ⟨fn', other⟩ := route_of_mem (next.mem_links there)
      cases other
  · rintro (passes | bare)
    · cases first with
      | none => exact ⟨second, runs.append next, kept⟩
      | some r =>
        obtain ⟨i, listed, called⟩ := runs.answered
        obtain ⟨fn, rfl⟩ := server_of_mem listed
        exact absurd (List.mem_append_left late called) (passes fn r)
    · rw [bare] at next ⊢
      have nothing : late = [] := List.map_eq_nil_iff.mp (List.prefix_nil.mp next.isPrefix)
      rw [nothing, List.append_nil, List.append_nil]
      exact ⟨first, runs, bareKept bare⟩

end

/-- A response ends its phase, at `after_handler` exactly when no server-wide hook
    gives one or the resource has no hooks of its own there. -/
theorem short_circuit_ends_phase_iff (env : Env) (st : HookState)
    (steady : ∀ h, env.hooksAt h = st) (reachable : HookState.Reachable env.config st)
    (hrm : Handler) (point : ChainPhase) (s : Session) (reached : point.Reached st hrm s.conn) :
    let t := after (point.fire env hrm) s
    let calls := invocations point.phase (t.history.drop s.history.length)
    EndsAtFirstResponse (st.chain hrm point.phase) calls t.conn ↔
      (point = .afterHandler →
        (∀ fn r, (Link.hook .server fn, some r) ∉ calls) ∨
          st.routeLinks hrm .afterHandler = []) := by
  intro t calls
  have made := invocations_since (emits_fire env hrm point) point.phase s
  cases point with
  | beforeHandler =>
    have keeps := spec_after (keeps_beforeHandler steady hrm) (s := s) rfl
    exact ⟨fun _ other => ChainPhase.noConfusion other, fun _ => keeps.ends made⟩
  | handlerException e =>
    have answered := spec_after (answered_handleDispatchException steady reachable e) (s := s)
      ⟨reached, rfl⟩
    exact ⟨fun _ other => ChainPhase.noConfusion other, fun _ => answered.keeps.ends made⟩
  | afterHandler =>
    have ran := spec_after (ranBoth_afterHandler steady hrm) (s := s) ⟨reached, rfl⟩
    have lists : st.chain hrm .afterHandler =
        st.serverLinks .afterHandler ++ st.routeLinks hrm .afterHandler := by
      simp [HookState.chain, HookState.slotLinks]
    rw [forall_prop_of_true rfl]
    change EndsAtFirstResponse (st.chain hrm .afterHandler) _ _ ↔ _
    rw [lists]
    exact ran.ends_iff made

def hookedState (cfg : WebserverConfig) (phase : HookPhase) : HookState :=
  [HookOp.addHook phase phase (some 1) 0, .addRouteHook (.resource 1) phase phase (some 2) 1].foldl
    HookState.step (.constructed cfg)

def Env.hooked (cfg : WebserverConfig) (phase : HookPhase) (server : HookOutcome) : Env :=
  { Env.quiet cfg with
    hooksAt := fun _ => hookedState cfg phase
    runHook := fun _ call => if call.fn = .user 1 then server else .pass }

def renderedSession : Session where
  conn := { request := some {}, response := some okPage, resourceWeak := some (.resource 1) }
  history := []

theorem passing_hooks_are_all_called :
    let t := after (ChainPhase.afterHandler.fire (Env.hooked {} .afterHandler .pass) (.resource 1))
      renderedSession
    EndsAtFirstResponse [.hook .server (.user 1), .hook .route (.user 2)]
      (invocations .afterHandler t.history) t.conn := by
  intro t
  have called : invocations .afterHandler t.history =
      [(.hook .server (.user 1), none), (.hook .route (.user 2), none)] := by decide
  refine (short_circuit_ends_phase_iff (Env.hooked {} .afterHandler .pass)
    (hookedState {} .afterHandler) (fun _ => rfl) ⟨_, rfl⟩ (.resource 1) .afterHandler
    renderedSession rfl).mpr fun _ => Or.inl fun fn r responds => ?_
  have listed : (Link.hook .server fn, some r) ∈ invocations .afterHandler t.history :=
    responds
  rw [called] at listed
  simp at listed

/-- The server-wide `after_handler` hook responds, and the resource's own hook is
    called behind it. -/
theorem route_hook_called_behind_response :
    let t := after (ChainPhase.afterHandler.fire
      (Env.hooked {} .afterHandler (.respond .empty500)) (.resource 1)) renderedSession
    invocations .afterHandler t.history =
        [(.hook .server (.user 1), some .empty500), (.hook .route (.user 2), none)] ∧
      ¬EndsAtFirstResponse ((hookedState {} .afterHandler).chain (.resource 1) .afterHandler)
        (invocations .afterHandler t.history) t.conn := by
  intro t
  have called : invocations .afterHandler t.history =
      [(.hook .server (.user 1), some .empty500)] ++ [(.hook .route (.user 2), none)] := by decide
  refine ⟨called, ?_⟩
  rw [called]
  rintro ⟨answer, runs, -⟩
  exact List.cons_ne_nil _ _ (runs.not_behind List.mem_cons_self)

/-- The hooks of both lists come before `internal_error_handler`, the first
    response is kept, and the empty-body 500 stands for none. -/
structure LastResort (st : HookState) (hrm : Handler) (calls : List (Link × Option HttpResponse))
    (c : Conn) : Prop where
  order : ∃ answer, FirstAnswer (st.serverLinks .handlerException ++
      st.routeLinks hrm .handlerException ++ st.slotLinks .handlerException) calls answer ∧
    (st.chain hrm .handlerException ≠ [] → c.response = some (answer.getD .empty500))
  once : calls.countP (·.1 = .internalErrorHandler) ≤ 1

section
variable {env : Env} {st : HookState} {hrm : Handler} {old : List (Link × Option HttpResponse)}

def Unhandled (st : HookState) (hrm : Handler) (old : List (Link × Option HttpResponse))
    (s : Session) : Prop :=
  Stamped st hrm s.conn.resourceWeak ∧ invocations .handlerException s.history = old

theorem unhandled_emits {α : Type} {kinds : EventKind → Prop} {x : DispatchM α}
    (emits : EmitsOnly Conn.apart kinds x)
    (other : ∀ k ∈ invocationKinds .handlerException, ¬kinds k) :
    Spec (Unhandled st hrm old) x (fun _ => Unhandled st hrm old)
      fun _ => Unhandled st hrm old := by
  refine spec_of_steps emits ?_
  rintro s t ⟨stamped, same⟩ ⟨⟨new, whole, sound⟩, view⟩
  have weak := congrArg Conn.resourceWeak view
  refine ⟨show Stamped st hrm t.conn.resourceWeak from weak ▸ stamped, ?_⟩
  rw [whole, invocations_append, same, invocations_of_other, List.append_nil]
  exact fun e listed watched => other e.kind watched (sound e listed)

theorem unhandled_renderResource :
    Spec (Unhandled st hrm old) (renderResource env hrm) (fun _ _ => True)
      fun _ => Unhandled st hrm old := by
  have written (call : HttpMethod) (req : Request) (answer : Except Exc HttpResponse) (s : Session)
      (start : Unhandled st hrm old s) :
      Unhandled st hrm old { s with history := s.history ++ [.called (.render hrm call req) answer] } := by
    refine ⟨start.1, ?_⟩
    rw [invocations_append, start.2]
    exact List.append_nil old
  refine spec_bind spec_getConn_frame fun conn => ?_
  refine spec_bind (M := fun _ => Unhandled st hrm old) (spec_callUser env ?_ ?_) fun r => ?_
  · exact fun s r start => written _ _ (.ok r) s start
  · exact fun s e start => written _ _ (.error e) s start
  · refine spec_bind (spec_true (returns_modify _)) fun _ => ?_
    split
    · refine spec_bind (spec_true (calm_runInternalErrorHandlerSafely env _).returns) fun page => ?_
      exact spec_true (returns_modify _)
    · exact spec_true (returns_pure _)

theorem unhandled_dispatchBody :
    Spec (Unhandled st hrm old) (dispatchBody env hrm) (fun _ _ => True)
      fun _ => Unhandled st hrm old := by
  have reads : Calm Conn.apart (· = .sharedRead) (readAllowed env hrm) := .readAllowed env hrm rfl
  refine spec_dispatchBody (fun _ start => start) ?_ unhandled_renderResource ?_
  · exact unhandled_emits reads.emits (by simp [invocationKinds])
  · exact spec_post (unhandled_emits (emits_refuseMethod env hrm) (by decide)) fun _ _ _ => trivial

variable {s : Session} {answer : Option HttpResponse}

theorem answered_dispatchResourceHandler (steady : ∀ h, env.hooksAt h = st)
    (reachable : HookState.Reachable env.config st) {e : Exc} (start : Unhandled st hrm old s)
    (threw : outcome (dispatchBody env hrm) s = .error e) :
    Answered old (st.chain hrm .handlerException) (after (dispatchResourceHandler env hrm) s) := by
  have body : Unhandled st hrm old (after (dispatchBody env hrm) s) :=
    (unhandled_dispatchBody s start).2 e threw
  have handles : Spec (Unhandled st hrm old) (do
      logDispatchError env (dispatchThrewText e)
      handleDispatchException env e)
      (fun _ => Answered old (st.chain hrm .handlerException))
      fun _ => Answered old (st.chain hrm .handlerException) :=
    spec_bind (spec_of_returns (unhandled_emits (calm_logDispatchError env _).emits
      (by simp [invocationKinds])) (calm_logDispatchError env _).returns)
      fun _ => answered_handleDispatchException steady reachable e
  rcases tryCatch_cases s (dispatchBody env hrm) fun e => do
      logDispatchError env (dispatchThrewText e)
      handleDispatchException env e with ⟨a, done, -, -⟩ | ⟨e', stop, -, state⟩
  · rw [threw] at done
    cases done
  · rw [threw] at stop
    cases stop
    unfold dispatchResourceHandler
    rw [state]
    exact spec_after handles body

variable {calls : List (Link × Option HttpResponse)}

theorem slot_once (runs : FirstAnswer (st.serverLinks .handlerException ++
      st.routeLinks hrm .handlerException ++ st.slotLinks .handlerException) calls answer) :
    calls.countP (·.1 = .internalErrorHandler) ≤ 1 := by
  have server : (st.serverLinks .handlerException).countP (· = .internalErrorHandler) = 0 := by
    refine List.countP_eq_zero.mpr fun link listed => ?_
    obtain ⟨fn, rfl⟩ := server_of_mem listed
    simp
  have route : (st.routeLinks hrm .handlerException).countP (· = .internalErrorHandler) = 0 := by
    refine List.countP_eq_zero.mpr fun link listed => ?_
    obtain ⟨fn, rfl⟩ := route_of_mem listed
    simp
  have slot : (st.slotLinks .handlerException).countP (· = .internalErrorHandler) ≤ 1 := by
    unfold HookState.slotLinks
    split
    · exact List.countP_le_length
    · exact Nat.zero_le 1
  have bound := runs.isPrefix.sublist.countP_le (p := (· = .internalErrorHandler))
  rw [List.countP_map, List.countP_append, List.countP_append, server, route] at bound
  exact bound.trans (by omega)

theorem slot_last
    (runs : FirstAnswer (st.serverLinks .handlerException ++ (st.slotLinks .handlerException ++
      st.routeLinks hrm .handlerException)) calls answer)
    (condition : st.slotLinks .handlerException = [] ∨ st.routeLinks hrm .handlerException = [] ∨
      ∃ fn r, (Link.hook .server fn, some r) ∈ calls) :
    FirstAnswer (st.serverLinks .handlerException ++
      st.routeLinks hrm .handlerException ++ st.slotLinks .handlerException) calls answer := by
  rcases condition with unwired | bare | ⟨fn, r, responds⟩
  · simpa [unwired] using runs
  · simpa [bare] using runs
  · rcases runs.split with ⟨r', rfl, early⟩ | ⟨later, passed, next⟩
    · rw [List.append_assoc]
      exact early.stop _
    · rw [passed, List.mem_append] at responds
      rcases responds with here | there
      · simp at here
      · rcases List.mem_append.mp (next.mem_links there) with slot | route
        · cases slot_of_mem slot
        · obtain ⟨fn', other⟩ := route_of_mem route
          cases other

theorem Answered.lastResort_iff (answered : Answered old (st.chain hrm .handlerException) s)
    (made : invocations .handlerException s.history = old ++ calls) :
    LastResort st hrm calls s.conn ↔
      (st.slotLinks .handlerException = [] ∨ st.routeLinks hrm .handlerException = [] ∨
        ∃ fn r, (Link.hook .server fn, some r) ∈ calls) := by
  obtain ⟨answer, ⟨calls', made', runs⟩, kept⟩ := answered
  rw [List.append_cancel_left (made'.symm.trans made), HookState.chain, List.append_assoc] at runs
  constructor
  · rintro ⟨⟨answer', wanted, -⟩, -⟩
    by_contra broken
    obtain ⟨wired, some_, passes⟩ : _ ∧ _ ∧ _ := by simpa only [not_or] using broken
    have unanswered (r : HttpResponse) :
        ¬FirstAnswer (st.serverLinks .handlerException) calls (some r) := by
      intro early
      obtain ⟨i, listed, called⟩ := early.answered
      obtain ⟨fn, rfl⟩ := server_of_mem listed
      exact passes ⟨fn, r, called⟩
    rw [List.append_assoc] at wanted
    rcases runs.split with ⟨r, -, early⟩ | ⟨later, passed, next⟩
    · exact unanswered r early
    · rcases wanted.split with ⟨r, -, early⟩ | ⟨later', passed', due⟩
      · exact unanswered r early
      · -- the slot was called where the first hook of the resource is due
        obtain ⟨slot, slots, wired⟩ := List.exists_cons_of_ne_nil wired
        obtain ⟨hook, hooks, routed⟩ := List.exists_cons_of_ne_nil some_
        rw [wired] at next
        rw [routed] at due
        obtain ⟨a, rest, called⟩ := next.head
        obtain ⟨a', rest', called'⟩ := due.head
        have same : (slot, a) :: rest = (hook, a') :: rest' := by
          rw [← called, ← called']
          exact List.append_cancel_left (passed.symm.trans passed')
        injection same with same
        obtain ⟨fn, isHook⟩ := route_of_mem (routed ▸ List.mem_cons_self)
        have isSlot := slot_of_mem (wired ▸ List.mem_cons_self)
        rw [isHook, isSlot] at same
        cases same
  · intro condition
    have wanted := slot_last runs condition
    exact ⟨⟨answer, wanted, kept⟩, slot_once wanted⟩

end

/-- After a handler has thrown, `internal_error_handler` comes last exactly when it
    is not configured, the resource has no hooks, or a server-wide hook responds. -/
theorem internal_error_handler_last_iff (env : Env) (st : HookState)
    (steady : ∀ h, env.hooksAt h = st) (reachable : HookState.Reachable env.config st)
    (hrm : Handler) (s : Session) (stamped : Stamped st hrm s.conn.resourceWeak) (e : Exc)
    (threw : outcome (dispatchBody env hrm) s = .error e) :
    let t := after (dispatchResourceHandler env hrm) s
    let calls := invocations .handlerException (t.history.drop s.history.length)
    LastResort st hrm calls t.conn ↔
      (env.config.internalErrorHandler = false ∨ st.routeLinks hrm .handlerException = [] ∨
        ∃ fn r, (Link.hook .server fn, some r) ∈ calls) := by
  intro t calls
  have slot : st.bus.handlerExceptionAlias = env.config.internalErrorHandler :=
    congrArg Prod.fst (slots_of_reachable reachable)
  have unwired : st.slotLinks .handlerException = [] ↔ env.config.internalErrorHandler = false := by
    rw [← slot]
    simp [HookState.slotLinks]
  rw [← unwired]
  exact (answered_dispatchResourceHandler steady reachable ⟨stamped, rfl⟩ threw).lastResort_iff
    (invocations_since (calm_dispatchResourceHandler env hrm).emits .handlerException s)

def throwingAnswer (e : Exc) : (call : UserCall) → Except Exc call.Answer
  | .render .. => .error e
  | call => quietAnswer call

def Env.throwing (server : HookOutcome) : Env :=
  { Env.hooked { internalErrorHandler := true } .handlerException server with
    answer := fun _ => throwingAnswer .other }

def dispatchedSession : Session where
  conn := { request := some {}, methodEnum := .get, resourceWeak := some (.resource 1) }
  history := []

theorem responding_hook_comes_first :
    LastResort (hookedState { internalErrorHandler := true } .handlerException) (.resource 1)
      (invocations .handlerException (after (dispatchResourceHandler
        (Env.throwing (.respond okPage)) (.resource 1)) dispatchedSession).history)
      (after (dispatchResourceHandler (Env.throwing (.respond okPage)) (.resource 1))
        dispatchedSession).conn :=
  (internal_error_handler_last_iff (Env.throwing (.respond okPage))
    (hookedState { internalErrorHandler := true } .handlerException) (fun _ => rfl) ⟨_, rfl⟩
    (.resource 1) dispatchedSession (Or.inl rfl) .other rfl).mpr
      (Or.inr (Or.inr ⟨.user 1, okPage, by decide⟩))

/-- `internal_error_handler` answers, and the resource's own hook is never called. -/
theorem internal_error_handler_hides_route_hook :
    let t := after (dispatchResourceHandler (Env.throwing .pass) (.resource 1)) dispatchedSession
    invocations .handlerException t.history =
        [(.hook .server (.user 1), none), (.internalErrorHandler, some okPage)] ∧
      ¬LastResort (hookedState { internalErrorHandler := true } .handlerException) (.resource 1)
        (invocations .handlerException t.history) t.conn := by
  intro t
  have called : invocations .handlerException t.history =
      [(.hook .server (.user 1), none), (.internalErrorHandler, some okPage)] := by decide
  refine ⟨called, ?_⟩
  rw [called]
  rintro ⟨⟨answer, runs, -⟩, -⟩
  have lead := runs.isPrefix
  revert lead
  decide

end HttpServer
