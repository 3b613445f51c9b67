import HttpServer.RequestRun

/-!
The authentication gate. The hook installed for `auth_handler` is the first
`before_handler` hook of a constructed server and no handle owns its slot, so
it leads the chain in every state user code can bring about, and the gate stays
open. A request whose chain ends without a response has therefore been let
through by `auth_handler`, or its path is on the skip list.
-/
namespace HttpServer
open Effect Slots

def authSlot : Slot HookFn := ⟨1, .authAlias⟩

theorem leads_push_if {p : HookPhase} {e : Slot HookFn} {b : HookBus}
    (leads : b.table.Leads p e) (wired : Bool) (q : HookPhase) (fn : HookFn) :
    (if wired then { b with table := b.table.push q fn } else b).table.Leads p e := by
  cases wired with
  | false => exact leads
  | true => exact leads.push q fn

variable {cfg : WebserverConfig}

theorem installDefaultAliasHooks_leads (configured : cfg.authHandler = true) :
    (installDefaultAliasHooks cfg).table.Leads .beforeHandler authSlot := by
  let auth : HookBus :=
    { HookBus.empty with table := HookBus.empty.table.push .beforeHandler .authAlias }
  have first : auth.table.Leads .beforeHandler authSlot := ⟨[], rfl⟩
  have second := leads_push_if first cfg.methodNotAllowedHandler .beforeHandler
    .methodNotAllowedAlias
  have third := leads_push_if second cfg.notFoundHandler .routeResolved .notFoundAlias
  unfold installDefaultAliasHooks
  simp only [configured, if_true]
  -- the two slots do not touch the list of hooks
  cases cfg.internalErrorHandler <;> cases cfg.logAccess <;> exact third

theorem heldFirst_of_reachable (configured : cfg.authHandler = true) {st : HookState}
    (reachable : HookState.Reachable cfg st) : st.HeldFirst .beforeHandler authSlot := by
  obtain ⟨ops, run⟩ := reachable
  have start : (HookState.constructed cfg).HeldFirst .beforeHandler authSlot := by
    refine ⟨installDefaultAliasHooks_leads configured, fun name owns => ?_⟩
    simp [HookState.constructed, HookHandle.Owns] at owns
  rw [run]
  exact start.run ops

section
variable (env : Env) {path : Str}

/-- The path needs no authentication, or `auth_handler` had nothing against a
    request for it. -/
def Authorized (path : Str) (h : History) : Prop :=
  shouldSkipAuth env.config.authSkipPathsNormalized path = true ∨
    ∃ req, req.path = path ∧ Event.called (.authHandler req) (.ok none) ∈ h

variable {h : History} {α γ : Type} {view : Conn → γ} {kinds : EventKind → Prop} {x : DispatchM α}

theorem Authorized.append (authorized : Authorized env path h) (new : History) :
    Authorized env path (h ++ new) := by
  rcases authorized with skipped | ⟨req, same, asked⟩
  · exact Or.inl skipped
  · exact Or.inr ⟨req, same, List.mem_append_left new asked⟩

def Guarded (path : Str) (h : History) : Prop :=
  ∀ before e later, h = before ++ e :: later → e.kind = .render → Authorized env path before

theorem guarded_nil : Guarded env path [] := by
  intro before e later whole
  simp at whole

variable {new : History} {ctx : Conn → HookCtx}

theorem Guarded.append_quiet (guarded : Guarded env path h) (quiet : ∀ e ∈ new, e.kind ≠ .render) :
    Guarded env path (h ++ new) := by
  intro before e later whole render
  rcases Trace.split_append whole with ⟨rest, old, -⟩ | ⟨mid, -, added⟩
  · exact guarded before e rest old render
  · have member : e ∈ new := by
      rw [added]
      exact List.mem_append_right mid List.mem_cons_self
    exact absurd render (quiet e member)

theorem Guarded.append_authorized (guarded : Guarded env path h)
    (authorized : Authorized env path h) : Guarded env path (h ++ new) := by
  intro before e later whole render
  rcases Trace.split_append whole with ⟨rest, old, -⟩ | ⟨mid, behind, -⟩
  · exact guarded before e rest old render
  · rw [behind]
    exact authorized.append env mid

theorem spec_askAuth (req : Request) :
    Spec (fun _ => True) (askAuth env req)
      (fun verdict s => verdict = some none → Event.called (.authHandler req) (.ok none) ∈ s.history)
      fun _ _ => False := by
  refine spec_tryCatch (M := fun _ _ => True) (spec_bind (spec_callUser env (Q := fun a s =>
    Event.called (.authHandler req) (.ok a) ∈ s.history) ?_ ?_) fun rejection => ?_) fun e => ?_
  · intro s a _
    exact List.mem_append_right _ List.mem_cons_self
  · intro s e _
    trivial
  · refine spec_pure fun s asked accepted => ?_
    injection accepted with same
    rw [same] at asked
    exact asked
  · have logged : Calm Conn.apart (· = .logError) (logDispatchError env (authThrewText e)) :=
      .logDispatchError env _ rfl
    refine spec_bind (spec_true logged.returns) fun _ => ?_
    refine spec_pure fun s _ accepted => ?_
    cases accepted

theorem spec_authAlias {call : HookCall} (present : call.request.map (·.path) = some path) :
    Spec (fun _ => True) (authAlias env call)
      (fun action s => action = none → Authorized env path s.history) fun _ _ => False := by
  obtain ⟨req, found, same⟩ := Option.map_eq_some_iff.mp present
  unfold authAlias
  rw [found]
  dsimp only
  split
  case isTrue skipped =>
    rw [same] at skipped
    exact spec_pure fun s _ _ => Or.inl skipped.2
  case isFalse =>
    refine spec_bind (spec_askAuth env req) fun verdict => ?_
    cases verdict with
    | none =>
      refine spec_pure fun s _ accepted => ?_
      cases accepted
    | some rejection =>
      refine spec_pure fun s asked accepted => ?_
      rw [accepted] at asked
      exact Or.inr ⟨req, same, asked rfl⟩

def Conn.requestPath (c : Conn) : Option Str := c.request.map (·.path)

theorem requestPath_of_apart (c d : Conn) (same : c.apart = d.apart) :
    c.requestPath = d.requestPath := by
  have fields := congrArg Conn.requestPath same
  exact fields

theorem requestPath_of_identity (c d : Conn) (same : c.identity = d.identity) :
    c.requestPath = d.requestPath := congrArg Prod.fst same

theorem spec_authChain (fires : ∀ c, (ctx c).phase = .beforeHandler) (rest : List HookFn) :
    Spec (fun s => s.conn.requestPath = some path)
      (fireShortCircuit env .server ctx (.authAlias :: rest))
      (fun sc s => sc = none → Authorized env path s.history) fun _ _ => False := by
  refine spec_bind spec_getConn fun conn => ?_
  refine spec_bind (M := fun action s => action = none → Authorized env path s.history)
    (spec_tryCatch (M := fun _ _ => False) ?_ fun e => ?_) fun action => ?_
  · refine spec_pre (B := fun _ => conn.requestPath = some path ∧ True)
      (spec_assume fun present => ?_) ?_
    · refine spec_hookAction env (spec_authAlias env present) ?_ ?_
      · intro action s authorized accepted
        exact (authorized accepted).append env _
      · intro e s impossible
        exact impossible
    · rintro s ⟨rfl, present⟩
      exact ⟨present, trivial⟩
  · intro s impossible
    exact impossible.elim
  · cases action with
    | some r =>
      refine spec_pure fun s _ accepted => ?_
      cases accepted
    | none =>
      refine spec_adapt ((calm_fireShortCircuit env .server rest fires).history_spec
        (I := Authorized env path) fun h new authorized _ => authorized.append env new)
        ?_ ?_
      · intro s authorized
        exact authorized rfl
      · intro sc s authorized _
        exact authorized

variable {env}

theorem spec_authFireServer (held : ∀ h, (env.hooksAt h).HeldFirst .beforeHandler authSlot)
    (fires : ∀ c, (ctx c).phase = .beforeHandler) :
    Spec (fun s => s.conn.requestPath = some path) (fireServer env .beforeHandler ctx)
      (fun sc s => sc = none → Authorized env path s.history) fun _ _ => False := by
  refine spec_bind (M := fun fns s => (∃ rest, fns = .authAlias :: rest) ∧
    s.conn.requestPath = some path) ?_ fun fns => spec_assume fun leads => ?_
  · refine spec_bind (spec_readHooks env (Q := fun st s =>
      st.HeldFirst .beforeHandler authSlot ∧ s.conn.requestPath = some path)
      fun s present => ⟨held s.history, present⟩) fun st => spec_pure fun s start => ?_
    obtain ⟨rest, first⟩ := start.1.leads
    refine ⟨⟨rest.map (·.fn), ?_⟩, start.2⟩
    rw [first]
    rfl
  · obtain ⟨rest, rfl⟩ := leads
    exact spec_authChain env fires rest

theorem spec_beforeHandler (held : ∀ h, (env.hooksAt h).HeldFirst .beforeHandler authSlot)
    (hrm : Handler) :
    Spec (fun s => s.conn.requestPath = some path) (fireBeforeHandlerGated env hrm)
      (fun answered s => answered = false → Authorized env path s.history) fun _ _ => False := by
  have reads : (fun k : EventKind => k = .sharedRead) .sharedRead := rfl
  refine spec_bind (M := fun server s => server = true ∧ s.conn.requestPath = some path) ?_
    fun server => spec_assume fun opened => ?_
  · refine spec_bind (spec_readHooks env (Q := fun st s =>
      st.HeldFirst .beforeHandler authSlot ∧ s.conn.requestPath = some path)
      fun s present => ⟨held s.history, present⟩) fun st => spec_pure fun s start => ?_
    exact ⟨start.1.leads.gate_open, start.2⟩
  · rw [opened]
    refine spec_bind ((calm_routeGate env reads _ _).view_spec _) fun route => ?_
    refine spec_bind (((calm_beforeHandlerDescriptor env reads hrm).weaken
      requestPath_of_apart).view_spec _) fun desc => ?_
    refine spec_bind (spec_authFireServer held fun _ => rfl) fun sc => ?_
    cases sc with
    | some r =>
      refine spec_bind (M := fun _ _ => True) (spec_modify fun _ _ => trivial) fun _ => ?_
      refine spec_pure fun s _ passed => ?_
      cases passed
    | none =>
      refine spec_adapt (B := fun s => Authorized env path s.history)
        (C := fun _ s => Authorized env path s.history) ?_ (fun s authorized => authorized rfl)
        fun _ _ authorized _ => authorized
      have later : Calm Conn.apart (· ∈ firingKinds .beforeHandler)
          (gatedChain route (fireRoute env hrm .beforeHandler
            fun c => .beforeHandler desc c.methodEnum (some hrm))) :=
        calm_gatedChain route (calm_fireRoute env hrm fun _ => rfl)
      refine spec_bind (later.history_spec fun h new authorized _ => authorized.append env new)
        fun sc => ?_
      cases sc with
      | some r =>
        exact spec_bind (M := fun _ s => Authorized env path s.history)
          (spec_modify fun _ start => start) fun _ => spec_pure fun _ start => start
      | none => exact spec_pure fun _ start => start

theorem guarded_emits (emits : EmitsOnly view kinds x) (quiet : ¬kinds .render) (v : γ) :
    Spec (fun s => Guarded env path s.history ∧ view s.conn = v) x
      (fun _ s => Guarded env path s.history ∧ view s.conn = v)
      fun _ s => Guarded env path s.history := by
  refine spec_mono (spec_of_steps (I := fun s => Guarded env path s.history ∧ view s.conn = v)
    emits ?_) (fun _ start => start) (fun _ _ kept => kept) fun _ _ kept => kept.1
  intro s t start step
  obtain ⟨⟨new, whole, sound⟩, same⟩ := step
  rw [whole, same]
  refine ⟨start.1.append_quiet env fun e member render => quiet ?_, start.2⟩
  rw [← render]
  exact sound e member

theorem authorized_emits (emits : EmitsOnly view kinds x) :
    Spec (fun s => Guarded env path s.history ∧ Authorized env path s.history) x
      (fun _ s => Guarded env path s.history ∧ Authorized env path s.history)
      fun _ s => Guarded env path s.history := by
  refine spec_mono (spec_of_steps (I := fun s =>
    Guarded env path s.history ∧ Authorized env path s.history) emits ?_)
    (fun _ start => start) (fun _ _ kept => kept) fun _ _ kept => kept.1
  intro s t start step
  obtain ⟨⟨new, whole, -⟩, -⟩ := step
  rw [whole]
  exact ⟨start.1.append_authorized env start.2, start.2.append env new⟩

theorem guarded_run (emits : EmitsOnly view kinds x) (quiet : ¬kinds .render) :
    Spec (fun s => Guarded env path s.history) x (fun _ s => Guarded env path s.history)
      fun _ s => Guarded env path s.history := by
  have blind : EmitsOnly (fun _ => ()) kinds x := emits.weaken fun _ _ _ => rfl
  exact spec_mono (guarded_emits blind quiet ()) (fun _ start => ⟨start, rfl⟩)
    (fun _ _ kept => kept.1) fun _ _ kept => kept

theorem guarded_beforeHandler (held : ∀ h, (env.hooksAt h).HeldFirst .beforeHandler authSlot)
    (hrm : Handler) :
    Spec (fun s => Guarded env path s.history ∧ s.conn.requestPath = some path)
      (fireBeforeHandlerGated env hrm)
      (fun answered s => if answered then Guarded env path s.history else
        Guarded env path s.history ∧ Authorized env path s.history)
      fun _ s => Guarded env path s.history := by
  have kept : Spec (fun s => Guarded env path s.history ∧ s.conn.requestPath = some path)
      (fireBeforeHandlerGated env hrm)
      (fun _ s => Guarded env path s.history ∧ s.conn.requestPath = some path)
      fun _ s => Guarded env path s.history :=
    guarded_emits ((calm_fireBeforeHandlerGated env hrm).emits.weaken requestPath_of_apart)
      (by decide) _
  have asked := spec_pre (spec_beforeHandler held hrm)
    fun s (start : Guarded env path s.history ∧ s.conn.requestPath = some path) => start.2
  refine spec_mono (spec_and kept asked) (fun _ start => start) ?_ fun _ _ raised => raised.1
  rintro answered s ⟨⟨guarded, -⟩, passed⟩
  cases answered with
  | true => exact guarded
  | false => exact ⟨guarded, passed rfl⟩

theorem guarded_parts (held : ∀ h, (env.hooksAt h).HeldFirst .beforeHandler authSlot)
    (w : WireRequest) :
    FinalizeProof env w
      (fun s => Guarded env path s.history ∧ s.conn.requestPath = some path)
      (fun s => Guarded env path s.history ∧ Authorized env path s.history)
      (fun s => Guarded env path s.history) (fun _ s => Guarded env path s.history)
      fun _ s => Guarded env path s.history where
  upgrade := by
    refine spec_post (guarded_emits ((calm_tryWsUpgrade env w).emits.weaken requestPath_of_apart)
      (by decide) _) ?_
    intro upgraded s start
    cases upgraded with
    | none => exact start
    | some result => exact start.1
  resolve := guarded_emits ((calm_resolveResourceForRequest env).emits.weaken
    requestPath_of_identity) (by decide) _
  stamp hrm := guarded_emits ((calm_stampResource env hrm).emits.weaken requestPath_of_identity)
    (by decide) _
  resolved hrm := guarded_emits ((calm_fireRouteResolvedGated env hrm).emits.weaken
    requestPath_of_apart) (by decide) _
  before := guarded_beforeHandler held
  dispatch hrm := spec_post (authorized_emits (calm_dispatchResourceHandler env hrm).emits)
    fun _ _ post => post.1
  missing := spec_pre (guarded_run (emits_emplaceNotFound env) (by decide)) fun _ start => start.1
  edited resource := guarded_run (calm_fireAfterHandlerGated env resource).emits (by decide)
  skipped _ start := start.1
  queue resource := guarded_run (emits_materializeAndQueueResponse env resource) (by decide)

/-- Whatever user code does with hooks and handles, and whatever it answers, a
    resource is only called behind its authorisation. -/
theorem render_requires_auth (w : WireRequest) (configured : env.config.authHandler = true)
    (reachable : ∀ h, HookState.Reachable env.config (env.hooksAt h))
    {before later : History} {resource : Handler} {method : HttpMethod} {req : Request}
    {answer : Except Exc HttpResponse}
    (rendered : (after (serve env w) {}).history =
      before ++ Event.called (.render resource method req) answer :: later) :
    Authorized env (dispatchPath env.config.unescaper w.url) before := by
  have held h := heldFirst_of_reachable configured (reachable h)
  have stable : Undisturbed (Guarded env (w.dispatched env.config)) := by
    intro h new guarded sound
    refine guarded.append_quiet env fun e member render => ?_
    have kind := sound e member
    rw [render] at kind
    revert kind
    decide
  have run : Spec _ (serve env w) (fun _ s => Guarded env (w.dispatched env.config) s.history)
      fun _ s => Guarded env (w.dispatched env.config) s.history :=
    spec_serve env w stable (spec_pre (guarded_parts held w).spec
      fun _ start => ⟨start.1, start.2.1⟩)
  have guarded : Guarded env (w.dispatched env.config) (after (serve env w) {}).history :=
    spec_after run ⟨guarded_nil env, rfl⟩
  exact guarded _ _ _ rendered rfl

end

def guardedEnv : Env := .quiet { authHandler := true }

theorem auth_handler_asked_before_render :
    ∃ before later req answer, (after (serve guardedEnv plainRequest) {}).history =
        before ++ Event.called (.render (.resource 1) .get req) answer :: later ∧
      Authorized guardedEnv (dispatchPath none "/a".toList) before := by
  have rendered : (after (serve guardedEnv plainRequest) {}).history =
      (after (serve guardedEnv plainRequest) {}).history.take 11 ++
        Event.called (.render (.resource 1) .get ⟨"/a".toList, "GET".toList, "HTTP/1.1".toList, [],
          UInt64.size - 1, []⟩) (.ok okPage) ::
        (after (serve guardedEnv plainRequest) {}).history.drop 12 := rfl
  exact ⟨_, _, _, _, rendered, render_requires_auth plainRequest rfl (fun _ => ⟨[], rfl⟩) rendered⟩

end HttpServer
