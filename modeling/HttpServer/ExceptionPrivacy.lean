import HttpServer.HookChains
import HttpServer.ShortCircuit

/-!
The text of an exception. Where nothing is configured that sees the exception or
the response to it, a handler that throws is answered with a fixed page, or with
the empty-body 500 if libmicrohttpd cannot create the page. What was thrown
reaches the log only.
-/
namespace HttpServer
open Effect Slots

def Event.renderThrew : Event → Bool
  | .called (.render ..) (.error _) => true
  | _ => false

def RenderThrew (h : History) : Prop := ∃ e ∈ h, e.renderThrew = true

def exceptionPhases : List HookPhase := [.handlerException, .afterHandler]

/-- Exception messages are not exposed, and no handler or hook is there for them. -/
structure Discreet (env : Env) : Prop where
  unexposed : env.config.exposeExceptionMessages = false
  unhandled : env.config.internalErrorHandler = false
  reachable : ∀ h, HookState.Reachable env.config (env.hooksAt h)
  noServerHooks : ∀ h, ∀ phase ∈ exceptionPhases, (env.hooksAt h).bus.table.hooks phase = []
  noRouteHooks : ∀ h hrm t, (env.hooksAt h).hookTableRaw hrm = some t →
    ∀ phase ∈ exceptionPhases, t.hooks phase = []

def HookBus.wired (b : HookBus) (phase : HookPhase) : Prop :=
  phase = .handlerException ∧ b.handlerExceptionAlias = true ∨
    phase = .responseSent ∧ b.logAccessAlias = true

def HookBus.Shut (b : HookBus) : Prop := b.table.Shut b.wired

structure HookState.Shut (st : HookState) : Prop where
  bus : st.bus.Shut
  tables : ∀ id, (st.tables id).Shut fun _ => False

namespace HookBus.Shut
variable {b : HookBus}

theorem push (shut : b.Shut) (phase : HookPhase) (fn : HookFn) :
    HookBus.Shut { b with table := b.table.push phase fn } := SlotTable.Shut.push shut phase fn

theorem remove (shut : b.Shut) (phase : HookPhase) (slotId : Nat) :
    (b.remove phase slotId).Shut := by
  unfold HookBus.remove
  split
  · dsimp only
    split
    · rename_i still
      refine SlotTable.Shut.erase shut slotId ?_
      simpa [HookBus.wired] using still
    · exact SlotTable.Shut.erase_close shut phase slotId
  · exact shut

theorem setHandlerExceptionAlias (shut : b.Shut) : b.setHandlerExceptionAlias.Shut :=
  SlotTable.Shut.openGate (SlotTable.Shut.mono shut fun _ wired =>
    wired.imp_left fun here => ⟨here.1, rfl⟩) (Or.inl ⟨rfl, rfl⟩)

theorem setLogAccessAlias (shut : b.Shut) : b.setLogAccessAlias.Shut :=
  SlotTable.Shut.mono shut fun _ wired => wired.imp_right fun here => ⟨here.1, rfl⟩

end HookBus.Shut

theorem shut_installed (cfg : WebserverConfig) : (installDefaultAliasHooks cfg).Shut := by
  have choose {wired : Bool} {a b : HookBus} (yes : a.Shut) (no : b.Shut) :
      HookBus.Shut (if wired then a else b) := by
    split
    · exact yes
    · exact no
  have start : HookBus.empty.Shut := SlotTable.shut_empty _
  have auth := @choose cfg.authHandler _ _ (start.push .beforeHandler .authAlias) start
  have method := @choose cfg.methodNotAllowedHandler _ _
    (auth.push .beforeHandler .methodNotAllowedAlias) auth
  have missing := @choose cfg.notFoundHandler _ _ (method.push .routeResolved .notFoundAlias) method
  have error := @choose cfg.internalErrorHandler _ _ missing.setHandlerExceptionAlias missing
  exact @choose cfg.logAccess _ _ error.setLogAccessAlias error

namespace HookState.Shut
variable {st : HookState}

theorem setTable (shut : st.Shut) (id : Nat) {t : ResourceHookTable} (table : t.Shut fun _ => False)
    (nextTable : Nat) (owners : List (Handler × Nat)) :
    HookState.Shut { st with
      tables := Function.update st.tables id t, nextTable := nextTable, owners := owners } := by
  refine ⟨shut.bus, fun id' => ?_⟩
  rcases eq_or_ne id' id with rfl | other
  · simpa using table
  · simpa [Function.update_of_ne other] using shut.tables id'

theorem setHandle (shut : st.Shut) (name : Nat) (h : HookHandle) : (st.setHandle name h).Shut :=
  ⟨shut.bus, shut.tables⟩

theorem removeHandle (shut : st.Shut) (name : Nat) : (st.removeHandle name).Shut := by
  unfold HookState.removeHandle
  dsimp only
  split
  · exact shut
  · split
    · exact ⟨shut.bus.remove _ _, shut.tables⟩
    · have disarmed := shut.setHandle name { st.handles name with armed := false, tableWeak := none }
      split
      · rename_i id locked
        refine disarmed.setTable id ?_ _ _
        unfold removeSlot
        split
        · exact (shut.tables id).erase_close _ _
        · exact shut.tables id
      · exact disarmed

theorem ensureTable (shut : st.Shut) (resource : Handler) : (st.ensureTable resource).1.Shut := by
  unfold HookState.ensureTable
  split
  · exact shut
  · exact shut.setTable _ (SlotTable.shut_empty _) _ _

theorem kept : HookState.Kept HookState.Shut where
  pushed phase fn _ shut := ⟨shut.bus.push phase fn, shut.tables⟩
  ensured resource shut := shut.ensureTable resource
  pushedRoute table phase fn dst shut :=
    (shut.setTable table ((shut.tables table).push phase fn) _ _).setHandle dst _
  moved _ _ shut := (shut.setHandle _ _).setHandle _ _
  removed name shut := shut.removeHandle name
  detached _ _ shut := (shut.setHandle _ _).setHandle _ _
  cleared name shut := shut.setHandle name _
  disowned _ shut := ⟨shut.bus, shut.tables⟩

end HookState.Shut

theorem shut_of_reachable {cfg : WebserverConfig} {st : HookState}
    (reachable : HookState.Reachable cfg st) : st.Shut :=
  reachable.invariant (I := HookState.Shut)
    ⟨shut_installed cfg, fun _ => SlotTable.shut_empty _⟩ fun _ op shut =>
      HookState.Shut.kept.step shut op

namespace Discreet
variable {env : Env} (discreet : Discreet env)
include discreet

variable {phase : HookPhase}

theorem server_closed (h : History) (watched : phase ∈ exceptionPhases) :
    (env.hooksAt h).bus.hasHooksFor phase = false := by
  rw [← Bool.not_eq_true]
  intro opened
  rcases (shut_of_reachable (discreet.reachable h)).bus phase opened with some_ | wired
  · exact some_ (discreet.noServerHooks h phase watched)
  · rcases wired with ⟨-, slot⟩ | ⟨rfl, -⟩
    · have same := congrArg Prod.fst (slots_of_reachable (discreet.reachable h))
      rw [show (env.hooksAt h).bus.slots.1 = true from slot] at same
      rw [discreet.unhandled] at same
      cases same
    · revert watched
      decide

theorem route_closed (h : History) (resource : Option Handler) (watched : phase ∈ exceptionPhases) :
    ((resource.bind (env.hooksAt h).hookTableRaw).map fun t => t.gate phase).getD false = false := by
  cases found : resource.bind (env.hooksAt h).hookTableRaw with
  | none => rfl
  | some t =>
    obtain ⟨hrm, -, table⟩ := Option.bind_eq_some_iff.mp found
    have bare := discreet.noRouteHooks h hrm t table phase watched
    obtain ⟨id, -, rfl⟩ := Option.map_eq_some_iff.mp table
    rw [Option.map_some, Option.getD_some, ← Bool.not_eq_true]
    intro opened
    rcases (shut_of_reachable (discreet.reachable h)).tables id phase opened with some_ | none_
    · exact some_ bare
    · exact none_

theorem slot_unwired (h : History) : (env.hooksAt h).bus.handlerExceptionAlias = false :=
  (congrArg Prod.fst (slots_of_reachable (discreet.reachable h))).trans discreet.unhandled

end Discreet

def internalErrorText : HttpResponse := .page "Internal Server Error".toList 500

def privateResponse (creates : ResponseBody → Bool) : HttpResponse :=
  if internalErrorText.materializes creates then internalErrorText else .empty500

def privateAnswer (creates : ResponseBody → Bool) : List Queued :=
  if (privateResponse creates).materializes creates then [.response (privateResponse creates) none]
  else []

section
variable {env : Env} {P : Session → Prop} {E : Exc → Session → Prop}

theorem spec_privatePage (discreet : Discreet env) (msg : Str) :
    Spec P (runInternalErrorHandlerSafely env msg) (fun r s => r = internalErrorText ∧ P s) E := by
  refine spec_tryCatch (M := fun _ _ => False) (spec_bind spec_getConn_frame fun conn => ?_)
    fun e s impossible => impossible.elim
  rw [if_neg (by simp [discreet.unhandled]), if_neg (by simp [discreet.unexposed])]
  exact spec_pure fun s start => ⟨rfl, start⟩

theorem spec_privateException (discreet : Discreet env) (e : Exc) :
    Spec (fun _ => True) (answerException env e)
      (fun _ s => s.conn.response = some internalErrorText) E := by
  refine spec_bind spec_getConn_frame fun conn => ?_
  refine spec_bind (spec_readFixed env _ (fun h => discreet.route_closed h conn.resourceWeak
    (by decide)) fun _ start => start) fun route => spec_assume fun closed => ?_
  refine spec_bind (M := fun st _ => (st.bus.hasHooksFor .handlerException ||
    st.bus.handlerExceptionAlias) = false ∧ True) (spec_readHooks env fun s _ => ⟨?_, trivial⟩)
    fun st => spec_assume fun shut => ?_
  · rw [discreet.server_closed s.history (by decide), discreet.slot_unwired]
    rfl
  · rw [closed, shut]
    refine spec_bind (spec_privatePage discreet e.message) fun r => spec_assume fun page => ?_
    exact spec_modify fun s _ => congrArg some page

theorem spec_unwatchedResponse (discreet : Discreet env) (resource : Option Handler)
    (blind : ∀ s : Session, P s → P { s with history := s.history ++ [.sharedRead] }) :
    Spec P (fireAfterHandlerGated env resource) (fun _ => P) E := by
  refine spec_bind (spec_readFixed env _ (fun h => discreet.server_closed h (by decide)) blind)
    fun server => spec_assume fun serverClosed => ?_
  refine spec_bind (spec_readFixed env _ (fun h => discreet.route_closed h resource (by decide))
    blind) fun route => spec_assume fun routeClosed => ?_
  refine spec_bind spec_getConn_frame fun conn => ?_
  rw [serverClosed, routeClosed]
  exact spec_pure fun _ start => start

theorem spec_privateRaw (discreet : Discreet env) :
    Spec (fun s => s.conn.response = some internalErrorText) (rawOrForced500 env)
      (fun raw s => raw = (privateResponse env.creates).materializes env.creates ∧
        s.conn.response = some (privateResponse env.creates)) E := by
  unfold rawOrForced500
  rw [getRawResponseWithFallback_eq]
  cases created : internalErrorText.materializes env.creates with
  | true =>
    have kept : privateResponse env.creates = internalErrorText := if_pos created
    rw [kept]
    refine spec_bind (M := fun raw s => raw = true ∧ s.conn.response = some internalErrorText)
      (spec_bind spec_materializeResponse fun raw => spec_assume fun same => ?_)
      fun raw => spec_assume fun same => ?_
    · rw [same, created]
      exact spec_pure fun s start => ⟨rfl, start⟩
    · rw [same]
      exact spec_pure fun s start => ⟨created.symm, start⟩
  | false =>
    have replaced : privateResponse env.creates = .empty500 :=
      if_neg (Bool.eq_false_iff.mp created)
    rw [replaced]
    refine spec_bind (M := fun raw _ => raw = false ∧ True)
      (spec_bind spec_materializeResponse fun raw => spec_assume fun same => ?_)
      fun raw => spec_assume fun same => ?_
    · rw [same, created]
      refine spec_bind (spec_privatePage discreet _) fun r => spec_assume fun page => ?_
      rw [page]
      refine spec_post (spec_emplaceAndMaterialize internalErrorText) ?_
      exact fun raw s post => ⟨post.1.trans created, trivial⟩
    · rw [same]
      exact spec_bind (spec_logDispatchError env _) fun _ => spec_emplaceAndMaterialize .empty500

theorem privateResponse_plain (env : Env) :
    (privateResponse env.creates).CookiesRenderable ∧
      queuedAs env (privateResponse env.creates) =
        .response (privateResponse env.creates) none := by
  unfold privateResponse queuedAs
  cases env.config.haveDauth with
  | true =>
    split
    · exact ⟨by decide, rfl⟩
    · exact ⟨by decide, rfl⟩
  | false =>
    split
    · exact ⟨by decide, rfl⟩
    · exact ⟨by decide, rfl⟩

theorem spec_privateQueue (discreet : Discreet env) (resource : Option Handler) :
    Spec (fun s => s.conn.response = some internalErrorText ∧ queueOf s = [])
      (materializeAndQueueResponse env resource)
      (fun _ s => queueOf s = privateAnswer env.creates)
      fun _ s => queueOf s = privateAnswer env.creates := by
  obtain ⟨renderable, form⟩ := privateResponse_plain env
  have quiet : Spec (fun s => s.conn.response = some internalErrorText ∧ queueOf s = [])
      (rawOrForced500 env) (fun _ s => queueOf s = []) fun _ _ => False :=
    spec_pre (queue_calm (calm_rawOrForced500 env) (by decide) []) fun _ start => start.2
  have raw : Spec (fun s => s.conn.response = some internalErrorText ∧ queueOf s = [])
      (rawOrForced500 env) _ fun _ _ => False :=
    spec_pre (spec_privateRaw discreet) fun _ start => start.1
  refine spec_bind (M := fun raw s => raw = (privateResponse env.creates).materializes env.creates ∧
    (s.conn.response = some (privateResponse env.creates) ∧ queueOf s = []))
    (spec_mono (spec_and quiet raw) (fun _ start => start) ?_ fun _ _ raised => raised.1.elim)
    fun raw => spec_assume fun created => ?_
  · exact fun raw s post => ⟨post.2.1, post.2.2, post.1⟩
  cases raw with
  | false =>
    refine spec_pure fun s start => ?_
    rw [start.2, privateAnswer, ← created]
    rfl
  | true =>
    have answer : privateAnswer env.creates = [.response (privateResponse env.creates) none] :=
      if_pos created.symm
    refine spec_mono (queue_handOver resource) (fun _ start => start) ?_ ?_
    · rintro result s ⟨-, queued⟩
      rw [queued, form, answer]
      rfl
    · exact fun e s bad => absurd renderable bad.1

def Unrendered (s : Session) : Prop := (∀ e ∈ s.history, e.kind ≠ .render) ∧ queueOf s = []

def Prepared (s : Session) : Prop :=
  (RenderThrew s.history → s.conn.response = some internalErrorText) ∧ queueOf s = []

def Uniform (env : Env) (s : Session) : Prop :=
  RenderThrew s.history → queueOf s = privateAnswer env.creates

variable {e : Event} {h new : History} {α γ : Type} {view : Conn → γ} {kinds : EventKind → Prop}
  {x : DispatchM α}

theorem kind_of_renderThrew (threw : e.renderThrew = true) : e.kind = .render := by
  unfold Event.renderThrew at threw
  split at threw
  · rfl
  · cases threw

theorem renderThrew_append (quiet : ∀ e ∈ new, e.renderThrew = false) :
    RenderThrew (h ++ new) ↔ RenderThrew h := by
  constructor
  · rintro ⟨e, listed, threw⟩
    rcases List.mem_append.mp listed with old | late
    · exact ⟨e, old, threw⟩
    · rw [quiet e late] at threw
      cases threw
  · rintro ⟨e, listed, threw⟩
    exact ⟨e, List.mem_append_left new listed, threw⟩

theorem renderThrew_of_kind (other : e.kind ≠ .render) : e.renderThrew = false := by
  rw [← Bool.not_eq_true]
  exact fun threw => other (kind_of_renderThrew threw)

variable {s : Session}

theorem Unrendered.not_threw (unrendered : Unrendered s) : ¬RenderThrew s.history := by
  rintro ⟨e, listed, threw⟩
  exact unrendered.1 e listed (kind_of_renderThrew threw)

theorem Unrendered.prepared (unrendered : Unrendered s) : Prepared s :=
  ⟨fun threw => absurd threw unrendered.not_threw, unrendered.2⟩

theorem Unrendered.uniform (unrendered : Unrendered s) : Uniform env s :=
  fun threw => absurd threw unrendered.not_threw

theorem unrendered_append (start : (∀ e ∈ h, e.kind ≠ .render) ∧ h.filterMap Event.queued = [])
    (noRender : ∀ e ∈ new, e.kind ≠ .render) (noQueue : ∀ e ∈ new, e.kind ≠ .queue) :
    (∀ e ∈ h ++ new, e.kind ≠ .render) ∧ (h ++ new).filterMap Event.queued = [] := by
  rw [filterMap_queued_append noQueue]
  refine ⟨fun e listed => ?_, start.2⟩
  rcases List.mem_append.mp listed with old | late
  · exact start.1 e old
  · exact noRender e late

theorem unrendered_emits (emits : EmitsOnly view kinds x)
    (quiet : ∀ k ∈ [.render, .queue], ¬kinds k) :
    Spec Unrendered x (fun _ => Unrendered) fun _ => Uniform env := by
  refine spec_mono (emits.history_spec (I := fun h => (∀ e ∈ h, e.kind ≠ .render) ∧
    h.filterMap Event.queued = []) ?_) (fun _ start => start) (fun _ _ post => post)
    fun _ _ raised => Unrendered.uniform raised
  exact fun h new start sound => unrendered_append start
    (fun e listed render => quiet .render (by simp) (render ▸ sound e listed))
    fun e listed queue => quiet .queue (by simp) (queue ▸ sound e listed)

theorem unrendered_tryWsUpgrade (w : WireRequest) :
    Spec Unrendered (tryWsUpgrade env w)
      (fun up s => up.elim (Unrendered s) fun _ => Uniform env s) E := by
  refine spec_bind spec_getConn_frame fun conn => ?_
  split
  · exact spec_pure fun s start => start
  · refine spec_bind (M := fun _ s => Uniform env s) ?_ fun _ => spec_pure fun s post => post
    refine spec_bind (M := fun _ s => Uniform env s) (spec_emit fun s start => ?_) fun _ =>
      spec_pure fun s post => post
    intro threw
    refine absurd ((renderThrew_append fun e listed => ?_).mp threw) start.not_threw
    rw [List.mem_singleton.mp listed]
    rfl

theorem clean_emits (emits : EmitsOnly view kinds x) (quiet : ¬kinds .render) :
    Spec (fun s => ¬RenderThrew s.history) x (fun _ s => ¬RenderThrew s.history)
      fun _ s => ¬RenderThrew s.history := by
  refine emits.history_spec (I := fun h => ¬RenderThrew h) fun h new clean sound => ?_
  rwa [renderThrew_append]
  exact fun e listed => renderThrew_of_kind fun render => quiet (render ▸ sound e listed)

theorem clean_renderResource (hrm : Handler) :
    Spec (fun s => ¬RenderThrew s.history) (renderResource env hrm)
      (fun _ s => ¬RenderThrew s.history) fun _ _ => True := by
  refine spec_bind spec_getConn_frame fun conn => ?_
  refine spec_bind (M := fun _ s => ¬RenderThrew s.history) (spec_callUser env ?_
    fun _ _ _ => trivial) fun r => ?_
  · intro s page clean
    rwa [renderThrew_append]
    intro e listed
    rw [List.mem_singleton.mp listed]
    rfl
  · refine spec_bind (M := fun _ s => ¬RenderThrew s.history) (spec_modify fun _ clean => clean)
      fun _ => ?_
    split
    · have page := calm_runInternalErrorHandlerSafely env "handler returned null response".toList
      refine spec_bind (spec_of_returns (clean_emits page.emits (by decide)) page.returns)
        fun page => ?_
      exact spec_modify fun _ clean => clean
    · exact spec_pure fun _ clean => clean

theorem clean_dispatchBody (hrm : Handler) :
    Spec (fun s => ¬RenderThrew s.history) (dispatchBody env hrm)
      (fun _ s => ¬RenderThrew s.history) fun _ _ => True := by
  have reads : Calm Conn.apart (· = .sharedRead) (readAllowed env hrm) := .readAllowed env hrm rfl
  refine spec_dispatchBody (fun _ clean => clean) ?_ (clean_renderResource hrm) ?_
  · exact spec_of_returns (clean_emits reads.emits (by simp)) reads.returns
  · exact spec_mono (clean_emits (emits_refuseMethod env hrm) (by decide)) (fun _ start => start)
      (fun _ _ post => post) fun _ _ _ => trivial

theorem prepared_dispatchResourceHandler (discreet : Discreet env) (hrm : Handler) :
    Spec Unrendered (dispatchResourceHandler env hrm) (fun _ => Prepared) E := by
  have unqueued : Spec (fun s => queueOf s = []) (dispatchBody env hrm)
      (fun _ s => queueOf s = []) fun _ s => queueOf s = [] := by
    refine (emits_dispatchBody env hrm).history_spec
      (I := fun h => h.filterMap Event.queued = []) fun h new same sound => ?_
    rw [filterMap_queued_append fun e listed queue => absurd (queue ▸ sound e listed) (by decide)]
    exact same
  have body : Spec Unrendered (dispatchBody env hrm) (fun _ => Prepared)
      fun _ s => queueOf s = [] := by
    refine spec_mono (spec_and (spec_pre (clean_dispatchBody hrm) fun _ start =>
      Unrendered.not_threw start) (spec_pre unqueued fun _ start => start.2))
      (fun _ start => start) ?_ fun _ _ raised => raised.2
    exact fun _ s post => ⟨fun threw => absurd threw post.1, post.2⟩
  refine spec_tryCatch body fun e => ?_
  refine spec_bind (queue_calm (calm_logDispatchError env _) (by simp) []) fun _ => ?_
  refine spec_bind (M := fun _ s => queueOf s = []) (spec_emit fun s same => ?_) fun _ => ?_
  · rw [queueOf_emit, same]
    rfl
  · refine spec_mono (spec_and (spec_pre (spec_privateException discreet e) fun _ _ => trivial)
      (queue_calm (E := E) (calm_answerException env e) (by decide) [])) (fun _ start => start) ?_
      fun _ _ raised => raised.1
    exact fun _ s post => ⟨fun _ => post.1, post.2⟩

theorem prepared_sharedRead (prepared : Prepared s) :
    Prepared { s with history := s.history ++ [.sharedRead] } := by
  refine ⟨fun threw => prepared.1 ((renderThrew_append fun e listed => ?_).mp threw), ?_⟩
  · rw [List.mem_singleton.mp listed]
    rfl
  · rw [queueOf_emit, prepared.2]
    rfl

theorem uniform_queueResponse (discreet : Discreet env) (resource : Option Handler) :
    Spec Prepared (materializeAndQueueResponse env resource) (fun _ => Uniform env)
      fun _ => Uniform env := by
  intro s prepared
  by_cases threw : RenderThrew s.history
  · obtain ⟨ok, error⟩ := spec_privateQueue discreet resource s ⟨prepared.1 threw, prepared.2⟩
    exact ⟨fun a run _ => ok a run, fun e run _ => error e run⟩
  · obtain ⟨ok, error⟩ :=
      clean_emits (emits_materializeAndQueueResponse env resource) (by decide) s threw
    exact ⟨fun a run late => absurd late (ok a run), fun e run late => absurd late (error e run)⟩

theorem uniform_parts (discreet : Discreet env) (w : WireRequest) :
    FinalizeProof env w Unrendered Unrendered Prepared (fun _ => Uniform env)
      fun _ => Uniform env where
  upgrade := unrendered_tryWsUpgrade w
  resolve := unrendered_emits (calm_resolveResourceForRequest env).emits (by decide)
  stamp hrm := unrendered_emits (calm_stampResource env hrm).emits (by decide)
  resolved hrm := unrendered_emits (calm_fireRouteResolvedGated env hrm).emits (by decide)
  before hrm := by
    refine spec_post (unrendered_emits (calm_fireBeforeHandlerGated env hrm).emits (by decide)) ?_
    intro answered s unrendered
    cases answered with
    | true => exact unrendered.prepared
    | false => exact unrendered
  dispatch := prepared_dispatchResourceHandler discreet
  missing := spec_post (unrendered_emits (emits_emplaceNotFound env) (by decide))
    fun _ _ unrendered => unrendered.prepared
  edited resource := spec_unwatchedResponse discreet resource fun _ => prepared_sharedRead
  skipped _ unrendered := unrendered.prepared
  queue := uniform_queueResponse discreet

theorem uniform_serve (discreet : Discreet env) (w : WireRequest) :
    Uniform env (after (serve env w) {}) := by
  have stable : Undisturbed fun h =>
      (∀ e ∈ h, e.kind ≠ .render) ∧ h.filterMap Event.queued = [] := by
    exact fun h new start sound => unrendered_append start
      (fun e listed render => absurd (render ▸ sound e listed) (by decide))
      fun e listed queue => absurd (queue ▸ sound e listed) (by decide)
  have run : Spec _ (serve env w) (fun _ => Uniform env) fun _ => Uniform env :=
    spec_serve env w stable (spec_pre (uniform_parts discreet w).spec fun _ start => start.1)
  exact spec_after run ⟨⟨fun e listed => absurd listed List.not_mem_nil, rfl⟩, rfl⟩

end

/-- Two requests whose handlers throw, whatever they throw, are answered alike. -/
theorem exception_text_stays_private (env₁ env₂ : Env) (w : WireRequest)
    (discreet₁ : Discreet env₁) (discreet₂ : Discreet env₂)
    (creates : env₁.creates = env₂.creates)
    (threw₁ : RenderThrew (after (serve env₁ w) {}).history)
    (threw₂ : RenderThrew (after (serve env₂ w) {}).history) :
    queueOf (after (serve env₁ w) {}) = queueOf (after (serve env₂ w) {}) := by
  rw [uniform_serve discreet₁ w threw₁, uniform_serve discreet₂ w threw₂, creates]

def renderThrowing (e : Exc) : Env := { Env.quiet {} with answer := fun _ => throwingAnswer e }

theorem discreet_renderThrowing (e : Exc) : Discreet (renderThrowing e) where
  unexposed := rfl
  unhandled := rfl
  reachable _ := ⟨[], rfl⟩
  noServerHooks _ phase watched := by
    have plain : ∀ phase ∈ exceptionPhases,
        (HookState.constructed {}).bus.table.hooks phase = [] := by decide
    exact plain phase watched
  noRouteHooks _ _ _ table := absurd table (by simp [renderThrowing, Env.quiet,
    HookState.hookTableRaw, HookState.constructed])

theorem secret_and_unknown_exception_answered_alike :
    queueOf (after (serve (renderThrowing (.stdException "secret".toList)) plainRequest) {}) =
      queueOf (after (serve (renderThrowing .other) plainRequest) {}) := by
  refine exception_text_stays_private _ _ plainRequest (discreet_renderThrowing _)
    (discreet_renderThrowing _) rfl ?_ ?_
  · exact List.any_eq_true.mp rfl
  · exact List.any_eq_true.mp rfl

end HttpServer
