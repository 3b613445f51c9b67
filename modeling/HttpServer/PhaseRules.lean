import HttpServer.RequestRun

/-!
Rules for chains of hooks, for dispatch to the resource and for the calls that
deliver a request. What a chain leaves is a fact about the history for every way
it ends: with nothing, or with the response of the hook it stopped at. A fact of
that kind is carried from single hook calls to a chain, and from the two
receiving phases to all calls before the last one.
-/
namespace HttpServer
open Effect

def bodyKinds : List EventKind :=
  [.sharedRead, .logError, .authHandler, .methodNotAllowedHandler .hookAlias]

structure ChainRule (phase : HookPhase) (End : Option HttpResponse → History → Prop) : Prop where
  quiet : ∀ h new : History, End none h → (∀ e ∈ new, e.kind ∈ bodyKinds) → End none (h ++ new)
  passed : ∀ h call outcome, End none h → call.ctx.phase = phase → (∀ r, outcome ≠ .respond r) →
    End none (h ++ [.hook call outcome])
  responded : ∀ h call r, End none h → call.ctx.phase = phase →
    End (some r) (h ++ [.hook call (.respond r)])

namespace ChainRule
variable {phase : HookPhase} {End : Option HttpResponse → History → Prop} {env : Env}
  {E : Exc → Session → Prop}

theorem calm (rule : ChainRule phase End) {α γ : Type} {view : Conn → γ}
    {kinds : EventKind → Prop} {x : DispatchM α} (calm : Calm view kinds x)
    (sound : ∀ k, kinds k → k ∈ bodyKinds) :
    Spec (fun s => End none s.history) x (fun _ s => End none s.history) E :=
  calm.history_spec fun h new start events =>
    rule.quiet h new start fun e listed => sound e.kind (events e listed)

theorem hook (rule : ChainRule phase End) {call : HookCall} (fires : call.ctx.phase = phase) :
    Spec (fun s => End none s.history) (hookAction env call)
      (fun action s => End action s.history) fun _ s => End none s.history := by
  have body : Spec (fun s => End none s.history) (actionBody env call)
      (fun _ s => End none s.history) fun _ s => End none s.history :=
    (emits_actionBody env call).history_spec rule.quiet
  refine spec_hookAction env body ?_ ?_
  · intro action s start
    cases action with
    | none => exact rule.passed s.history call .pass start fires fun _ => HookOutcome.noConfusion
    | some r => exact rule.responded s.history call r start fires
  · intro e s start
    exact rule.passed s.history call (.threw e) start fires fun _ => HookOutcome.noConfusion

variable {ctx : Conn → HookCtx}

theorem chain (rule : ChainRule phase End) (scope : HookScope) (fires : ∀ c, (ctx c).phase = phase)
    (fns : List HookFn) :
    Spec (fun s => End none s.history) (fireShortCircuit env scope ctx fns)
      (fun sc s => End sc s.history) E := by
  induction fns with
  | nil => exact spec_pure fun _ start => start
  | cons fn rest ih =>
    refine spec_bind spec_getConn_frame fun conn => ?_
    have here : (⟨scope, fn, conn.request, ctx conn⟩ : HookCall).ctx.phase = phase := fires conn
    refine spec_bind (spec_tryCatch (rule.hook here) fun e => ?_) fun action => ?_
    · refine spec_bind (rule.calm (calm_logDispatchError env _) (by simp [bodyKinds])) fun _ => ?_
      exact spec_pure fun _ start => start
    · cases action with
      | some r => exact spec_pure fun _ answered => answered
      | none => exact ih

theorem server (rule : ChainRule phase End) (fires : ∀ c, (ctx c).phase = phase) :
    Spec (fun s => End none s.history) (fireServer env phase ctx)
      (fun sc s => End sc s.history) E := by
  have reads : Calm Conn.apart (· ∈ bodyKinds) (serverHooks env phase) :=
    calm_serverHooks env (by decide) phase
  exact spec_bind (rule.calm reads fun _ listed => listed) fun fns => rule.chain .server fires fns

theorem route (rule : ChainRule phase End) (resource : Handler) (fires : ∀ c, (ctx c).phase = phase) :
    Spec (fun s => End none s.history) (fireRoute env resource phase ctx)
      (fun sc s => End sc s.history) E := by
  have reads : Calm Conn.apart (· ∈ bodyKinds) (routeHooks env resource phase) :=
    calm_routeHooks env (by decide) resource phase
  exact spec_bind (rule.calm reads fun _ listed => listed) fun fns => rule.chain .route fires fns

theorem gated {chain : DispatchM (Option HttpResponse)} (gate : Bool)
    (fires : Spec (fun s => End none s.history) chain (fun sc s => End sc s.history) E) :
    Spec (fun s => End none s.history) (gatedChain gate chain)
      (fun sc s => End sc s.history) E := by
  cases gate with
  | false => exact spec_pure fun _ start => start
  | true => exact fires

theorem beforeHandler (rule : ChainRule .beforeHandler End) (hrm : Handler) :
    Spec (fun s => End none s.history) (fireBeforeHandlerGated env hrm)
      (fun answered s => if answered then ∃ r, End (some r) s.history else End none s.history)
      E := by
  have reads {x : DispatchM Bool} (calm : Calm Conn.apart (· ∈ bodyKinds) x) :
      Spec (fun s => End none s.history) x (fun _ s => End none s.history) E :=
    rule.calm calm fun _ listed => listed
  have answer (r : HttpResponse) : Spec (fun s => End (some r) s.history) (do
      emplace r
      pure true) (fun answered s =>
        if answered then ∃ r, End (some r) s.history else End none s.history) E :=
    spec_bind (M := fun _ s => End (some r) s.history) (spec_modify fun _ start => start)
      fun _ => spec_pure fun _ start => ⟨r, start⟩
  refine spec_bind (reads (calm_serverGate env (by decide) _)) fun server =>
    spec_bind (reads (calm_routeGate env (by decide) _ _)) fun route => ?_
  split
  · exact spec_pure fun _ start => start
  · have described : Calm Conn.apart (· ∈ bodyKinds) (beforeHandlerDescriptor env hrm) :=
      calm_beforeHandlerDescriptor env (by decide) hrm
    refine spec_bind (rule.calm described fun _ listed => listed) fun desc => ?_
    refine spec_bind (gated server (rule.server fun _ => rfl)) fun sc => ?_
    cases sc with
    | some r => exact answer r
    | none =>
      refine spec_bind (gated route (rule.route hrm fun _ => rfl)) fun sc => ?_
      cases sc with
      | some r => exact answer r
      | none => exact spec_pure fun _ start => start

end ChainRule

/-- A chain of observers calls every hook it was given. `I done` speaks of the
    history when the hooks `done` have been called. -/
theorem spec_fireVoid {env : Env} {scope : HookScope} {ctx : Conn → HookCtx}
    {I : List HookFn → History → Prop} {E : Exc → Session → Prop}
    (logged : ∀ done h new, I done h → (∀ e ∈ new, e.kind = .logError) → I done (h ++ new))
    (called : ∀ done fn h request c outcome, I done h →
      I (done ++ [fn]) (h ++ [.hook ⟨scope, fn, request, ctx c⟩ outcome]))
    (done fns : List HookFn) :
    Spec (fun s => I done s.history) (fireVoid env scope ctx fns)
      (fun _ s => I (done ++ fns) s.history) E := by
  induction fns generalizing done with
  | nil =>
    rw [List.append_nil]
    exact spec_pure fun _ start => start
  | cons fn rest ih =>
    rw [show done ++ fn :: rest = (done ++ [fn]) ++ rest by simp]
    refine spec_bind spec_getConn_frame fun conn => spec_bind (spec_tryCatch (M := fun _ s =>
      I (done ++ [fn]) s.history) ?_ fun e => ?_) fun _ => ih (done ++ [fn])
    · refine spec_bind (M := fun _ s => I done s.history) (spec_get fun _ start => start)
        fun s => ?_
      split
      · exact spec_emit fun s start => called done fn s.history conn.request conn .pass start
      · rename_i e threw
        refine spec_bind (M := fun _ s => I (done ++ [fn]) s.history) (spec_emit fun s start =>
          called done fn s.history conn.request conn (.threw e) start) fun _ => ?_
        exact spec_throw fun _ post => post
    · exact (calm_logDispatchError env _).history_spec fun h new start sound =>
        logged _ h new start sound

variable {I : History → Prop} {env : Env} {found : Option Handler → Prop}
  {Q : MhdResult → Session → Prop} {E : Exc → Session → Prop}

theorem wireTokens_clean :
    (allMethods.all fun m => m.wireToken.all fun c => !forbiddenFieldChars.contains c) = true := rfl

theorem formatAllowHeader_clean (allowed : MethodSet) :
    (formatAllowHeader allowed).any forbiddenFieldChars.contains = false := by
  have separators : ([',', ' '].all fun c => !forbiddenFieldChars.contains c) = true := rfl
  rw [List.any_eq_false]
  intro c member
  rw [Bool.not_eq_true, ← Bool.not_eq_true']
  rcases Fields.mem_intercalate member with separator | ⟨token, listed, inside⟩
  · exact List.all_eq_true.mp separators c separator
  · obtain ⟨m, kept, rfl⟩ := List.mem_map.mp listed
    have token := List.all_eq_true.mp wireTokens_clean m (List.mem_filter.mp kept).1
    exact List.all_eq_true.mp token c inside

theorem addAllow_ok (page : HttpResponse) (allowed : MethodSet) :
    ∃ answer, addAllow page (formatAllowHeader allowed) = .ok answer := by
  have key : ("Allow".toList).any forbiddenFieldChars.contains = false := by decide
  unfold addAllow
  split
  · exact ⟨page, rfl⟩
  · unfold HttpResponse.withHeader validateHttpField
    rw [key, formatAllowHeader_clean]
    exact ⟨_, rfl⟩

/-- What dispatch leaves, from the one call it makes: `I` holds before that call,
    `J` once it has returned, and `T` of what it throws. -/
structure DispatchRule (I J : History → Prop) (T : Exc → History → Prop) : Prop where
  read : ∀ h, I h → I (h ++ [.sharedRead])
  quiet : ∀ h new : History, J h → (∀ e ∈ new, e.kind ∈ .sharedRead :: errorPageKinds) →
    J (h ++ new)
  rendered : ∀ h hrm method req r, I h → J (h ++ [.called (.render hrm method req) (.ok r)])
  renderThrew : ∀ h hrm method req e, I h →
    T e (h ++ [.called (.render hrm method req) (.error e)])
  refused : ∀ h req r, I h →
    J (h ++ [.called (.methodNotAllowedHandler .errorPage req) (.ok r)])
  refusalThrew : ∀ h req e, I h →
    T e (h ++ [.called (.methodNotAllowedHandler .errorPage req) (.error e)])
  page : ∀ h, I h → J h

namespace DispatchRule
variable {I J : History → Prop} {T : Exc → History → Prop} {env : Env}

theorem calm (rule : DispatchRule I J T) {α γ : Type} {view : Conn → γ}
    {kinds : EventKind → Prop} {x : DispatchM α} {E : Exc → Session → Prop}
    (calm : Calm view kinds x) (sound : ∀ k, kinds k → k ∈ .sharedRead :: errorPageKinds) :
    Spec (fun s => J s.history) x (fun _ s => J s.history) E :=
  calm.history_spec fun h new start events =>
    rule.quiet h new start fun e listed => sound e.kind (events e listed)

theorem render (rule : DispatchRule I J T) (hrm : Handler) :
    Spec (fun s => I s.history) (renderResource env hrm) (fun _ s => J s.history)
      fun e s => T e s.history := by
  refine spec_bind spec_getConn_frame fun conn => ?_
  refine spec_bind (M := fun _ s => J s.history) (spec_callUser env
    (fun s r start => rule.rendered s.history hrm _ _ r start)
    fun s e start => rule.renderThrew s.history hrm _ _ e start) fun r => ?_
  refine spec_bind (M := fun _ s => J s.history) (spec_modify fun _ start => start) fun _ => ?_
  split
  · refine spec_bind (rule.calm (calm_runInternalErrorHandlerSafely env _) fun k listed =>
      List.mem_cons_of_mem _ listed) fun page => ?_
    exact spec_modify fun _ start => start
  · exact spec_pure fun _ start => start

theorem refuse (rule : DispatchRule I J T) (hrm : Handler) :
    Spec (fun s => I s.history) (refuseMethod env hrm) (fun _ s => J s.history)
      fun e s => T e s.history := by
  have page : Spec (fun s => I s.history) (methodNotAllowedPage env) (fun _ s => J s.history)
      fun e s => T e s.history := by
    refine spec_bind spec_getConn_frame fun conn => ?_
    split
    · exact spec_callUser env (fun s r start => rule.refused s.history _ r start)
        fun s e start => rule.refusalThrew s.history _ e start
    · exact spec_pure fun s start => rule.page s.history start
  have reads : Calm Conn.apart (· = .sharedRead) (readAllowed env hrm) := .readAllowed env hrm rfl
  refine spec_bind page fun page => ?_
  refine spec_bind (M := fun _ s => J s.history) (spec_modify fun _ start => start) fun _ => ?_
  refine spec_bind (rule.calm reads (by simp)) fun allowed => ?_
  obtain ⟨answer, valid⟩ := addAllow_ok page allowed
  rw [valid]
  refine spec_bind (M := fun _ s => J s.history) (spec_pure fun _ start => start) fun _ => ?_
  exact spec_modify fun _ start => start

theorem body (rule : DispatchRule I J T) (hrm : Handler) :
    Spec (fun s => I s.history) (dispatchBody env hrm) (fun _ s => J s.history)
      fun e s => T e s.history := by
  refine spec_dispatchBody (fun _ start => start) ?_ (rule.render hrm) (rule.refuse hrm)
  refine spec_bind (M := fun _ s => I s.history) (spec_get fun _ start => start) fun s => ?_
  exact spec_bind (M := fun _ s => I s.history)
    (spec_emit fun s start => rule.read s.history start) fun _ => spec_pure fun _ post => post

end DispatchRule

def Gathered (End : Option HttpResponse → History → Prop) (s : Session) : Prop :=
  (End none s.history ∧ s.conn.skipHandler = false) ∨
    ∃ r, End (some r) s.history ∧ s.conn.skipHandler = true ∧ s.conn.response = some r

section
variable {env : Env} {w : WireRequest} {End : Option HttpResponse → History → Prop}
  {E : Exc → Session → Prop}

theorem skipHandler_of_apart (c d : Conn) (same : c.apart = d.apart) :
    c.skipHandler = d.skipHandler := by
  have flag := congrArg Conn.skipHandler same
  exact flag

variable {phase : HookPhase}

theorem ChainRule.receiving (rule : ChainRule phase End) (gate : Bool) {ctx : Conn → HookCtx}
    (fires : ∀ c, (ctx c).phase = phase) :
    Spec (fun s => End none s.history ∧ s.conn.skipHandler = false)
      (gatedChain gate (fireServer env phase ctx))
      (fun sc s => End sc s.history ∧ s.conn.skipHandler = false) E := by
  have flag : Calm Conn.skipHandler (· ∈ firingKinds phase)
      (gatedChain gate (fireServer env phase ctx)) :=
    (calm_gatedChain gate (calm_fireServer env fires)).weaken skipHandler_of_apart
  exact spec_both (spec_pre (ChainRule.gated gate (rule.server fires)) fun _ start => start.1)
    (spec_pre (flag.view_spec false) fun _ start => start.2)

theorem ChainRule.readGate (rule : ChainRule phase End) :
    Spec (fun s => End none s.history ∧ s.conn.skipHandler = false) (serverGate env phase)
      (fun _ s => End none s.history ∧ s.conn.skipHandler = false) E := by
  have reads : Calm Conn.skipHandler (· ∈ bodyKinds) (serverGate env phase) :=
    calm_serverGate env (by decide) phase
  exact reads.spec rule.quiet false

theorem gathered_shortCircuit (r : HttpResponse) :
    Spec (fun s => End (some r) s.history ∧ s.conn.skipHandler = false) (do
      shortCircuit r
      pure MhdResult.yes) (fun _ => Gathered End) E :=
  spec_bind (M := fun _ => Gathered End)
    (spec_modify fun _ start => Or.inr ⟨r, start.1, rfl, rfl⟩) fun _ => spec_pure fun _ post => post

theorem gathered_continue {f : Conn → Conn} (keeps : ∀ c, (f c).skipHandler = c.skipHandler) :
    Spec (fun s => End none s.history ∧ s.conn.skipHandler = false) (do
      setConn f
      pure MhdResult.yes) (fun _ => Gathered End) E :=
  spec_bind (M := fun _ => Gathered End)
    (spec_modify fun s start => Or.inl ⟨start.1, (keeps s.conn).trans start.2⟩)
    fun _ => spec_pure fun _ post => post

theorem gathered_firstStep (rule : ChainRule .requestReceived End) :
    Spec (fun s => End none s.history ∧ s.conn.skipHandler = false)
      (requestsAnswerFirstStep env w) (fun _ => Gathered End) E := by
  refine spec_bind (M := fun _ s => End none s.history ∧ s.conn.skipHandler = false)
    (spec_modify fun _ start => start) fun _ => ?_
  refine spec_bind rule.readGate fun gate => ?_
  refine spec_bind (rule.receiving gate fun _ => by rfl) fun sc => ?_
  cases sc with
  | some r => exact gathered_shortCircuit r
  | none =>
    refine gathered_continue fun c => ?_
    split
    · rfl
    · rfl

theorem gathered_receiveChunk (rule : ChainRule .bodyChunk End) (chunk : Str) :
    Spec (fun s => End none s.history ∧ s.conn.skipHandler = false) (receiveChunk env chunk)
      (fun _ => Gathered End) E := by
  refine spec_bind rule.readGate fun gate => ?_
  refine spec_bind (M := fun sc s => End sc s.history ∧ s.conn.skipHandler = false) ?_ fun sc => ?_
  · cases gate with
    | false => exact spec_pure fun _ start => start
    | true =>
      refine spec_bind spec_getConn_frame fun conn => ?_
      refine spec_bind (M := fun _ s => End none s.history ∧ s.conn.skipHandler = false)
        (spec_modify fun _ start => start) fun _ => ?_
      exact rule.receiving true fun _ => by rfl
  · cases sc with
    | some r => exact gathered_shortCircuit r
    | none =>
      refine gathered_continue fun c => ?_
      split
      · rfl
      · rfl

theorem gathered_secondStep (rule : ChainRule .bodyChunk End) {chunk : Str} (sized : chunk ≠ []) :
    Spec (Gathered End) (requestsAnswerSecondStep env w chunk) (fun _ => Gathered End) E := by
  unfold requestsAnswerSecondStep
  rw [if_neg sized]
  refine spec_bind spec_getConn fun conn => ?_
  split
  · exact spec_pure fun _ start => start.2
  case isFalse reads =>
    refine spec_pre (gathered_receiveChunk rule chunk) ?_
    rintro s ⟨rfl, open_ | ⟨r, -, skips, -⟩⟩
    · exact open_
    · simp [skips] at reads

end

structure ReceiveProof (First Later : Option HttpResponse → History → Prop) : Prop where
  received : ChainRule .requestReceived First
  chunk : ChainRule .bodyChunk Later
  opened : ∀ sc h, First sc h → Later sc h

namespace ReceiveProof
variable {env : Env} {w : WireRequest} {First Later : Option HttpResponse → History → Prop}
  {E : Exc → Session → Prop}

theorem undisturbed_true : Undisturbed fun _ => True := fun _ _ _ _ => trivial

theorem firstCall (parts : ReceiveProof First Later) :
    Spec (fun s => First none s.history ∧ s.conn.request = none ∧ s.conn.skipHandler = false)
      (answerToConnection env w [])
      (fun _ s => Gathered First s ∧ s.conn.arrived = w.arrives env.config) E := by
  refine spec_both ?_ (spec_adapt (spec_firstCall env w undisturbed_true)
    (fun _ start => ⟨trivial, start.2.1⟩) fun _ _ post => post.2)
  refine spec_answer_first env w (fun s start => start.2.1) ?_
  refine spec_bind (M := fun _ s => First none s.history ∧ s.conn.skipHandler = false)
    (spec_modify fun _ start => ⟨start.1, start.2.2⟩) fun _ => ?_
  exact gathered_firstStep parts.received

theorem chunkCall (parts : ReceiveProof First Later) {chunk : Str} (sized : chunk ≠ []) :
    Spec (fun s => Gathered Later s ∧ s.conn.arrived = w.arrives env.config)
      (answerToConnection env w chunk)
      (fun _ s => Gathered Later s ∧ s.conn.arrived = w.arrives env.config) E := by
  refine spec_both ?_ (spec_adapt (spec_chunkCall env w undisturbed_true sized)
    (fun _ start => ⟨trivial, start.2⟩) fun _ _ post => post.2)
  refine spec_answer_second env w (fun s start => start.2) ?_
  exact spec_pre (gathered_secondStep parts.chunk sized) fun _ start => start.1

theorem deliver (parts : ReceiveProof First Later) (chunks : List Str)
    (sized : ∀ c ∈ chunks, c ≠ []) :
    Spec (fun s => Gathered Later s ∧ s.conn.arrived = w.arrives env.config)
      (deliver env w chunks)
      (fun _ s => Gathered Later s ∧ s.conn.arrived = w.arrives env.config) E := by
  induction chunks with
  | nil => exact spec_pure fun _ start => start
  | cons chunk rest ih =>
    refine spec_bind (parts.chunkCall (sized chunk List.mem_cons_self)) fun _ => ?_
    exact ih fun c listed => sized c (List.mem_cons_of_mem _ listed)

theorem spec (parts : ReceiveProof First Later) :
    Spec (fun s => First none s.history ∧ s.conn.request = none ∧ s.conn.skipHandler = false)
      (receive env w)
      (fun _ s => Gathered Later s ∧ s.conn.arrived = w.arrives env.config) E := by
  refine spec_bind parts.firstCall fun _ => ?_
  refine spec_pre (parts.deliver w.chunks w.nonempty) fun s start => ⟨?_, start.2⟩
  rcases start.1 with ⟨open_, flag⟩ | ⟨r, closed, flag, kept⟩
  · exact Or.inl ⟨parts.opened none _ open_, flag⟩
  · exact Or.inr ⟨r, parts.opened (some r) _ closed, flag, kept⟩

end ReceiveProof

def preparingKinds : List EventKind :=
  .notFoundHandler :: (firingKinds .routeResolved ++ firingKinds .afterHandler)

theorem AnswerProof.ofHistory {start : Session → Prop}
    (quiet : ∀ h new : History, I h → (∀ e ∈ new, e.kind ∈ preparingKinds) → I (h ++ new))
    (raised : ∀ e s, I s.history → E e s)
    (resolve : Spec (fun s => start s ∧ s.conn.skipHandler = false)
      (resolveResourceForRequest env) (fun hrm s => found hrm ∧ I s.history) E)
    (before : ∀ hrm, found (some hrm) → Spec (fun s => I s.history)
      (fireBeforeHandlerGated env hrm) (fun _ s => I s.history) E)
    (dispatch : ∀ hrm, found (some hrm) → Spec (fun s => I s.history)
      (dispatchResourceHandler env hrm) (fun _ s => I s.history) E)
    (skipped : Spec (fun s => start s ∧ s.conn.skipHandler = true)
      (materializeAndQueueResponse env none) Q E)
    (queue : ∀ hrm, found hrm → Spec (fun s => I s.history)
      (materializeAndQueueResponse env hrm) Q E) :
    AnswerProof env found { Checkpoints.uniform fun s => I s.history with start := start } Q E := by
  have kept {α γ : Type} {view : Conn → γ} {kinds : List EventKind} {x : DispatchM α}
      (emits : EmitsOnly view (· ∈ kinds) x) (sound : ∀ k ∈ kinds, k ∈ preparingKinds) :
      Spec (fun s => I s.history) x (fun _ s => I s.history) E :=
    spec_mono (emits.history_spec fun h new start events =>
      quiet h new start fun e listed => sound e.kind (events e listed))
      (fun _ start => start) (fun _ _ post => post) raised
  exact {
    resolve := resolve
    missed := fun _ _ start => start
    stamp := fun hrm _ => kept ((calm_stampResource env hrm).emits.mono fun k same =>
      List.mem_singleton.mpr same) (by decide)
    resolved := fun hrm => kept (calm_fireRouteResolvedGated env hrm).emits (by decide)
    before := fun hrm here => spec_either (before hrm here)
    dispatch := dispatch
    missing := fun _ => kept ((emits_emplaceNotFound env).mono fun k same =>
      List.mem_singleton.mpr same) (by decide)
    edited := fun hrm _ => kept (calm_fireAfterHandlerGated env hrm).emits (by decide)
    skipped := skipped
    early := fun hrm here => queue (some hrm) here
    queue := queue }

structure Conn.Addressed (c : Conn) (w : WireRequest) (cfg : WebserverConfig) : Prop where
  url : c.standardizedUrl = w.dispatched cfg
  method : c.methodEnum = (resolveMethodCallback w.method).1

end HttpServer
