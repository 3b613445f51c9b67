import HttpServer.DispatchEffects
import HttpServer.Registration

/-!
From the parts of the request path to a whole request. A request is a first
call of `answer_to_connection`, one call for every chunk of the body and a last
call that answers it. `spec_serve` reduces a statement about all of them to one
about `finalize_answer`, for every fact that the pre-handler hooks cannot touch.
-/
namespace HttpServer
open Effect

variable (env : Env) (w : WireRequest) {P : Session → Prop} {E : Exc → Session → Prop}

theorem spec_getConn : Spec P getConn (fun c s => s.conn = c ∧ P s) E := by
  intro s start
  refine ⟨fun c run => ?_, fun e run => ?_⟩
  · cases run
    exact ⟨rfl, start⟩
  · cases run

theorem spec_getConn_bind {β : Type} {I : Session → Prop} {K : Conn → Prop} {f : Conn → DispatchM β}
    {Q : β → Session → Prop} (known : ∀ s, P s → K s.conn ∧ I s)
    (rest : ∀ conn, K conn → Spec I (f conn) Q E) : Spec P (getConn >>= f) Q E := by
  refine spec_bind (M := fun conn s => K conn ∧ I s) (spec_post spec_getConn ?_)
    fun conn => spec_assume (rest conn)
  rintro conn s ⟨rfl, start⟩
  exact known s start

section
variable {P : Session → Prop} {E : Exc → Session → Prop}

theorem spec_emit {e : Event} {Q : PUnit → Session → Prop}
    (holds : ∀ s, P s → Q ⟨⟩ { s with history := s.history ++ [e] }) : Spec P (emit e) Q E :=
  spec_modify holds

variable {α : Type} {call : UserCall} {Q : call.Answer → Session → Prop}

theorem spec_raise {result : Except Exc α} {Q : α → Session → Prop}
    (ok : ∀ s a, P s → result = .ok a → Q a s) (error : ∀ s e, P s → result = .error e → E e s) :
    Spec P (raise result) Q E := by
  cases result with
  | ok a => exact spec_pure fun s start => ok s a start rfl
  | error e => exact spec_throw fun s start => error s e start rfl

theorem spec_readHooks {Q : HookState → Session → Prop}
    (holds : ∀ s, P s → Q (env.hooksAt s.history) { s with history := s.history ++ [.sharedRead] }) :
    Spec P (readHooks env) Q E := by
  intro s start
  refine ⟨fun st run => ?_, fun e run => ?_⟩
  · cases run
    exact holds s start
  · cases run

theorem spec_readFixed {a : α} (pick : HookState → α) (always : ∀ h, pick (env.hooksAt h) = a)
    (blind : ∀ s : Session, P s → P { s with history := s.history ++ [.sharedRead] }) :
    Spec P (do
        let st ← readHooks env
        pure (pick st))
      (fun b s => b = a ∧ P s) E :=
  spec_bind (M := fun st s => pick st = a ∧ P s)
    (spec_readHooks env fun s start => ⟨always s.history, blind s start⟩) fun _ =>
    spec_pure fun _ start => start

theorem spec_callAnswer (ok : ∀ s a, P s → env.answer s.history call = .ok a →
      Q a { s with history := s.history ++ [.called call (.ok a)] })
    (error : ∀ s e, P s → env.answer s.history call = .error e →
      E e { s with history := s.history ++ [.called call (.error e)] }) :
    Spec P (callUser env call) Q E := by
  refine spec_get_bind fun now => ?_
  refine spec_bind (M := fun _ s => P now ∧
    s = { now with history := now.history ++ [.called call (env.answer now.history call)] })
    (spec_emit ?_) fun _ => spec_raise ?_ ?_
  · rintro s ⟨rfl, start⟩
    exact ⟨start, rfl⟩
  · rintro s a ⟨start, rfl⟩ answer
    rw [answer]
    exact ok now a start answer
  · rintro s e ⟨start, rfl⟩ answer
    rw [answer]
    exact error now e start answer

theorem spec_callUser
    (ok : ∀ s a, P s → Q a { s with history := s.history ++ [.called call (.ok a)] })
    (error : ∀ s e, P s → E e { s with history := s.history ++ [.called call (.error e)] }) :
    Spec P (callUser env call) Q E :=
  spec_callAnswer env (fun s a start _ => ok s a start) fun s e start _ => error s e start

theorem spec_logDispatchError (msg : Str) : Spec P (logDispatchError env msg) (fun _ _ => True) E :=
  spec_true (calm_logDispatchError env msg).returns

theorem spec_hookAction {call : HookCall} {B Q : Option HttpResponse → Session → Prop}
    {D : Exc → Session → Prop} (body : Spec P (actionBody env call) B D)
    (ok : ∀ action s, B action s →
      Q action { s with history := s.history ++ [.hook call (.ofAction (.ok action))] })
    (error : ∀ e s, D e s → E e { s with history := s.history ++ [.hook call (.threw e)] }) :
    Spec P (hookAction env call) Q E := by
  refine spec_bind (spec_of_returns (E := fun _ _ => False) (spec_attempt body) fun s => ⟨_, rfl⟩)
    fun result => ?_
  refine spec_bind (M := fun _ s => (∀ a, result = .ok a → Q a s) ∧ ∀ e, result = .error e → E e s)
    (spec_emit fun s start => ?_) fun _ => spec_raise ?_ ?_
  · refine ⟨fun a run => ?_, fun e run => ?_⟩
    · rw [run]
      exact ok a s (start.1 a run)
    · rw [run]
      exact error e s (start.2 e run)
  · exact fun s a start run => start.1 a run
  · exact fun s e start run => start.2 e run

end

theorem spec_either {x : DispatchM Bool} {Q : Session → Prop} (spec : Spec P x (fun _ => Q) E) :
    Spec P x (fun answered s => if answered then Q s else Q s) E := by
  refine spec_post spec ?_
  intro answered s post
  exact (ite_self (Q s)).symm ▸ post

theorem spec_getConn_frame : Spec P getConn (fun _ s => P s) E := by
  refine spec_post spec_getConn ?_
  intro c s read
  exact read.2

theorem spec_dispatchBody {env : Env} {hrm : Handler} {Q : Unit → Session → Prop}
    (detached : ∀ s, P s → P { s with conn := { s.conn with pp := false } })
    (reads : Spec P (readAllowed env hrm) (fun _ => P) E)
    (render : Spec P (renderResource env hrm) Q E) (refuse : Spec P (refuseMethod env hrm) Q E) :
    Spec P (dispatchBody env hrm) Q E := by
  refine spec_bind (M := fun _ => P) (spec_modify detached) fun _ => ?_
  refine spec_bind spec_getConn_frame fun conn => ?_
  refine spec_bind reads fun allowed => ?_
  split
  · exact render
  · exact refuse

def WireRequest.dispatched (w : WireRequest) (cfg : WebserverConfig) : Str :=
  dispatchPath cfg.unescaper w.url

def WireRequest.arrives (w : WireRequest) (cfg : WebserverConfig) : (Bool × Str) × HttpMethod :=
  ((true, w.dispatched cfg), (resolveMethodCallback w.method).1)

def Conn.ReadyFor (c : Conn) (path : Str) : Prop :=
  c.request.map (·.path) = some path ∧ c.standardizedUrl = path

def receivingKinds : List EventKind := firingKinds .requestReceived ++ firingKinds .bodyChunk

def Undisturbed (I : History → Prop) : Prop :=
  ∀ h new : History, I h → (∀ e ∈ new, e.kind ∈ receivingKinds) → I (h ++ new)

section
variable {α γ : Type} {view : Conn → γ} {kinds : EventKind → Prop} {x : DispatchM α}
  {I : History → Prop} {E : Exc → Session → Prop}

theorem EmitsOnly.history_spec (emits : EmitsOnly view kinds x)
    (stable : ∀ h new : History, I h → (∀ e ∈ new, kinds e.kind) → I (h ++ new)) :
    Spec (fun s => I s.history) x (fun _ s => I s.history) fun _ s => I s.history := by
  refine spec_of_steps emits fun s t start step => ?_
  obtain ⟨⟨new, whole, sound⟩, -⟩ := step
  rw [whole]
  exact stable _ new start sound

theorem Calm.view_spec (calm : Calm view kinds x) (v : γ) :
    Spec (fun s => view s.conn = v) x (fun _ s => view s.conn = v) E := by
  refine spec_of_returns (spec_of_steps calm.emits fun s t start step => ?_) calm.returns
  rw [step.2]
  exact start

theorem Calm.history_spec (calm : Calm view kinds x)
    (stable : ∀ h new : History, I h → (∀ e ∈ new, kinds e.kind) → I (h ++ new)) :
    Spec (fun s => I s.history) x (fun _ s => I s.history) E :=
  spec_of_returns (calm.emits.history_spec stable) calm.returns

theorem Calm.spec (calm : Calm view kinds x)
    (stable : ∀ h new : History, I h → (∀ e ∈ new, kinds e.kind) → I (h ++ new)) (v : γ) :
    Spec (fun s => I s.history ∧ view s.conn = v) x
      (fun _ s => I s.history ∧ view s.conn = v) E := by
  refine spec_of_returns (spec_of_steps calm.emits fun s t start step => ?_) calm.returns
  obtain ⟨⟨new, whole, sound⟩, same⟩ := step
  rw [whole, same]
  exact ⟨stable _ new start.1 sound, start.2⟩

end

theorem calm_attachPostProcessor {kinds : EventKind → Prop} :
    Calm Conn.awaiting kinds (attachPostProcessor env w) := by
  refine .setConn fun c => ?_
  split
  · exact awaiting_map c fun _ => rfl
  · rfl

/-- The first step, behind its new request object. -/
def firstCallHooks : DispatchM MhdResult := do
  let gate ← serverGate env .requestReceived
  let sc ← gatedChain gate (fireServer env .requestReceived fun _ => .requestReceived)
  match sc with
  | some r => do
    shortCircuit r
    pure .yes
  | none => do
    attachPostProcessor env w
    pure .yes

theorem calm_firstCallHooks {γ : Type} {view : Conn → γ}
    (apart : ∀ c d : Conn, c.apart = d.apart → view c = view d)
    (skips : ∀ (r : HttpResponse) (c : Conn),
      view { c with response := some r, skipHandler := true, pp := false } = view c)
    (attaches : Calm view (· ∈ firingKinds .requestReceived) (attachPostProcessor env w)) :
    Calm view (· ∈ firingKinds .requestReceived) (firstCallHooks env w) := by
  refine .bind (calm_serverGate env (sharedRead_mem_firingKinds _) _) fun gate => ?_
  refine .bind (calm_gatedChain gate (.weaken ?_ apart)) fun sc => ?_
  · exact calm_fireServer env fun _ => rfl
  · cases sc with
    | some r => exact .bind (.setConn (skips r)) fun _ => .pure _
    | none => exact .bind attaches fun _ => .pure _

theorem calm_firstCallAwaiting :
    Calm Conn.awaiting (· ∈ firingKinds .requestReceived) (firstCallHooks env w) :=
  calm_firstCallHooks env w awaiting_of_apart (fun _ _ => rfl) (calm_attachPostProcessor env w)

-- A call is the first step without a request object and the second with one.
theorem Conn.request_of_arrived {c : Conn} {w : WireRequest} {cfg : WebserverConfig}
    (arrived : c.arrived = w.arrives cfg) : ∃ req, c.request = some req :=
  Option.isSome_iff_exists.mp (congrArg (·.1.1) arrived)

section
variable {P : Session → Prop} {uploadData : Str} {Q : MhdResult → Session → Prop}
  {E : Exc → Session → Prop}

theorem spec_answer_first (fresh : ∀ s, P s → s.conn.request = none)
    (first : Spec P (do
      setConn fun c => { c with
        standardizedUrl := dispatchPath env.config.unescaper w.url
        methodEnum := (resolveMethodCallback w.method).1
        hasBody := (resolveMethodCallback w.method).2 }
      requestsAnswerFirstStep env w) Q E) :
    Spec P (answerToConnection env w uploadData) Q E := by
  refine spec_getConn_bind (K := fun conn => conn.request = none)
    (fun s start => ⟨fresh s start, start⟩) fun conn absent => ?_
  rw [absent]
  exact first

theorem spec_answer_second (arrived : ∀ s, P s → s.conn.arrived = w.arrives env.config)
    (second : Spec P (requestsAnswerSecondStep env w uploadData) Q E) :
    Spec P (answerToConnection env w uploadData) Q E := by
  refine spec_getConn_bind (K := fun conn => conn.arrived = w.arrives env.config)
    (fun s start => ⟨arrived s start, start⟩) fun conn here => ?_
  obtain ⟨req, present⟩ := Conn.request_of_arrived here
  rw [present]
  exact second

end

section
variable {I : History → Prop} {E : Exc → Session → Prop}

theorem spec_firstCall (stable : Undisturbed I) :
    Spec (fun s => I s.history ∧ s.conn.request = none) (answerToConnection env w [])
      (fun _ s => I s.history ∧ s.conn.arrived = w.arrives env.config) E := by
  refine spec_answer_first env w (fun s start => start.2) ?_
  refine spec_bind (M := fun _ s => I s.history ∧
    (s.conn.standardizedUrl, s.conn.methodEnum) =
      (w.dispatched env.config, (resolveMethodCallback w.method).1))
    (spec_modify fun s start => ⟨start.1, rfl⟩) fun _ => ?_
  refine spec_bind (M := fun _ s => I s.history ∧ s.conn.arrived = w.arrives env.config)
    (spec_modify fun s start => ⟨start.1, ?_⟩) fun _ => ?_
  · obtain ⟨url, method⟩ := Prod.mk.inj start.2
    simp [Conn.arrived, Conn.started, WireRequest.arrives, url, method]
  · refine ((calm_firstCallAwaiting env w).weaken arrived_of_awaiting).spec (fun h new start sound => ?_) _
    exact stable h new start fun e member => List.mem_append_left _ (sound e member)

theorem spec_chunkCall (stable : Undisturbed I) {chunk : Str} (sized : chunk ≠ []) :
    Spec (fun s => I s.history ∧ s.conn.arrived = w.arrives env.config)
      (answerToConnection env w chunk)
      (fun _ s => I s.history ∧ s.conn.arrived = w.arrives env.config) E := by
  refine spec_answer_second env w (fun s start => start.2) ?_
  unfold requestsAnswerSecondStep
  rw [if_neg sized]
  refine spec_bind spec_getConn_frame fun conn => ?_
  split
  · exact spec_pure fun s start => start
  · refine ((calm_receiveChunk env chunk).weaken arrived_of_awaiting).spec (fun h new start sound => ?_) _
    exact stable h new start fun e member => List.mem_append_right _ (sound e member)

theorem spec_deliver (stable : Undisturbed I) (chunks : List Str) (sized : ∀ c ∈ chunks, c ≠ []) :
    Spec (fun s => I s.history ∧ s.conn.arrived = w.arrives env.config)
      (deliver env w chunks)
      (fun _ s => I s.history ∧ s.conn.arrived = w.arrives env.config) E := by
  induction chunks with
  | nil => exact spec_pure fun s start => start
  | cons chunk rest ih =>
    refine spec_bind (spec_chunkCall env w stable (sized chunk List.mem_cons_self)) fun _ => ?_
    exact ih fun c member => sized c (List.mem_cons_of_mem _ member)

theorem spec_receive (stable : Undisturbed I) :
    Spec (fun s => I s.history ∧ s.conn.request = none) (receive env w)
      (fun _ s => I s.history ∧ s.conn.arrived = w.arrives env.config) E :=
  spec_bind (spec_firstCall env w stable) fun _ => spec_deliver env w stable w.chunks w.nonempty

variable {Q : MhdResult → Session → Prop}

theorem spec_lastCall {J : Session → Prop}
    (last : Spec (fun s => J s ∧ s.conn.ReadyFor (w.dispatched env.config))
      (finalizeAnswer env w) Q E)
    (blind : ∀ s : Session, ∀ request, J s → J { s with conn := { s.conn with request := request } }) :
    Spec (fun s => J s ∧ s.conn.arrived = w.arrives env.config)
      (answerToConnection env w []) Q E := by
  refine spec_answer_second env w (fun s start => start.2) ?_
  refine spec_bind (M := fun _ s => J s ∧ s.conn.ReadyFor (w.dispatched env.config))
    (spec_modify fun s start => ?_) fun _ => last
  obtain ⟨holds, ready⟩ := start
  obtain ⟨req, present⟩ := Conn.request_of_arrived ready
  have url : s.conn.standardizedUrl = w.dispatched env.config := congrArg (·.1.2) ready
  exact ⟨blind s _ holds, by simp [present, ← url], url⟩

theorem spec_serve (stable : Undisturbed I)
    (last : Spec (fun s => I s.history ∧ s.conn.ReadyFor (w.dispatched env.config))
      (finalizeAnswer env w) Q E) :
    Spec (fun s => I s.history ∧ s.conn.request = none) (serve env w) Q E :=
  spec_bind (spec_receive env w stable) fun _ =>
    spec_lastCall env w (J := fun s => I s.history) last fun _ _ holds => holds

end

-- The same calls with a statement that goes along with the delivered chunks.
def WireRequest.opened (w : WireRequest) (cfg : WebserverConfig) : Session :=
  { conn := { standardizedUrl := w.dispatched cfg
              methodEnum := (resolveMethodCallback w.method).1
              hasBody := (resolveMethodCallback w.method).2 } }

def Conn.reading (c : Conn) : Bool := c.hasBody && !c.skipHandler

theorem getConn_bind {α : Type} (f : Conn → DispatchM α) (s : Session) :
    (getConn >>= f) s = f s.conn s := rfl

theorem answerToConnection_chunk {chunk : Str} (sized : chunk ≠ []) {s : Session}
    (present : s.conn.request.isSome = true) :
    answerToConnection env w chunk s =
      if s.conn.reading then receiveChunk env chunk s else .ok .yes s := by
  obtain ⟨req, held⟩ := Option.isSome_iff_exists.mp present
  rw [answerToConnection, getConn_bind, held]
  dsimp only
  rw [requestsAnswerSecondStep, if_neg sized, getConn_bind]
  unfold Conn.reading
  cases body : s.conn.hasBody with
  | false => rfl
  | true =>
    cases skips : s.conn.skipHandler with
    | false => rfl
    | true => rfl

section
variable {E : Exc → Session → Prop}

theorem spec_receiveChunks (Open : List Str → Session → Prop)
    (present : ∀ seen s, Open seen s → s.conn.request.isSome = true)
    (first : Spec (fun s => s = w.opened env.config) (requestsAnswerFirstStep env w)
      (fun _ => Open []) E)
    (read : ∀ seen chunk, chunk ≠ [] → Spec (fun s => Open seen s ∧ s.conn.reading = true)
      (receiveChunk env chunk) (fun _ => Open (seen ++ [chunk])) E)
    (ignored : ∀ seen chunk s, Open seen s → s.conn.reading = false → Open (seen ++ [chunk]) s) :
    Spec (fun s => s = {}) (receive env w) (fun _ => Open w.chunks) E := by
  have call (seen : List Str) (chunk : Str) (sized : chunk ≠ []) :
      Spec (Open seen) (answerToConnection env w chunk) (fun _ => Open (seen ++ [chunk])) E := by
    intro s start
    have run := answerToConnection_chunk env w sized (present seen s start)
    cases reads : s.conn.reading with
    | true =>
      rw [reads, if_pos rfl] at run
      have both := read seen chunk sized s ⟨start, reads⟩
      simpa only [outcome, after, run] using both
    | false =>
      rw [reads, if_neg (by decide)] at run
      simp only [outcome, after, run]
      exact ⟨fun _ _ => ignored seen chunk s start reads, fun e stop => by cases stop⟩
  have delivered (rest : List Str) : ∀ seen, (∀ c ∈ rest, c ≠ []) →
      Spec (Open seen) (deliver env w rest) (fun _ => Open (seen ++ rest)) E := by
    induction rest with
    | nil =>
      intro seen _
      rw [List.append_nil]
      exact spec_pure fun _ start => start
    | cons chunk rest ih =>
      intro seen sized
      refine spec_bind (call seen chunk (sized chunk List.mem_cons_self)) fun _ => ?_
      have later := ih (seen ++ [chunk]) fun c listed => sized c (List.mem_cons_of_mem _ listed)
      rw [List.append_assoc] at later
      exact later
  refine spec_bind (M := fun _ => Open []) ?_ fun _ => delivered w.chunks [] w.nonempty
  rintro _ rfl
  exact first _ rfl

end

section
variable {P : Session → Prop} {E : Exc → Session → Prop} {url : Str}

theorem spec_tryWsUpgrade_declined (declined : upgradeAnswer env w url = none) :
    Spec (fun s => P s ∧ s.conn.standardizedUrl = url) (tryWsUpgrade env w)
      (fun up s => up = none ∧ P s) E := by
  refine spec_getConn_bind (K := fun conn => conn.standardizedUrl = url)
    (fun s start => start.symm) fun conn same => ?_
  rw [same, declined]
  exact spec_pure fun _ start => ⟨rfl, start⟩

theorem spec_tryWsUpgrade_answered {what : Queued} (answer : upgradeAnswer env w url = some what) :
    Spec (fun s => P s ∧ s.conn.standardizedUrl = url) (tryWsUpgrade env w)
      (fun up s => up.isSome ∧ ∃ t, P t ∧
        s = { t with history := t.history ++ [.queue what (env.accepts what)] }) E := by
  refine spec_getConn_bind (K := fun conn => conn.standardizedUrl = url)
    (fun s start => start.symm) fun conn same => ?_
  rw [same, answer]
  refine spec_bind (M := fun _ s => ∃ t, P t ∧
    s = { t with history := t.history ++ [.queue what (env.accepts what)] })
    (spec_bind (spec_emit fun s start => ⟨s, start, rfl⟩) fun _ => spec_pure fun _ post => post)
    fun result => spec_pure fun _ post => ⟨rfl, post⟩

end

/-- What is known at the points `finalize_answer` passes behind the WebSocket
    check; `refused` is for an answer of a pre-handler hook. -/
structure Checkpoints where
  start : Session → Prop
  routed : Session → Prop
  stamped : Session → Prop
  resolved : Session → Prop
  refused : Session → Prop
  calling : Session → Prop
  answered : Session → Prop
  edited : Session → Prop

def Checkpoints.uniform (P : Session → Prop) : Checkpoints := ⟨P, P, P, P, P, P, P, P⟩

structure AnswerProof (env : Env) (found : Option Handler → Prop) (known : Checkpoints)
    (Q : MhdResult → Session → Prop) (E : Exc → Session → Prop) : Prop where
  resolve : Spec (fun s => known.start s ∧ s.conn.skipHandler = false)
    (resolveResourceForRequest env) (fun hrm s => found hrm ∧ known.routed s) E
  stamp : ∀ hrm, found (some hrm) →
    Spec known.routed (stampResource env hrm) (fun _ => known.stamped) E
  missed : found none → ∀ s, known.routed s → known.stamped s
  resolved : ∀ hrm, Spec known.stamped (fireRouteResolvedGated env hrm) (fun _ => known.resolved) E
  before : ∀ hrm, found (some hrm) → Spec known.resolved (fireBeforeHandlerGated env hrm)
    (fun answered s => if answered then known.refused s else known.calling s) E
  dispatch : ∀ hrm, found (some hrm) → Spec known.calling (dispatchResourceHandler env hrm)
    (fun _ => known.answered) E
  missing : found none → Spec known.resolved (emplaceNotFound env) (fun _ => known.answered) E
  edited : ∀ hrm, found hrm → Spec known.answered (fireAfterHandlerGated env hrm)
    (fun _ => known.edited) E
  skipped : Spec (fun s => known.start s ∧ s.conn.skipHandler = true)
    (materializeAndQueueResponse env none) Q E
  early : ∀ hrm, found (some hrm) →
    Spec known.refused (materializeAndQueueResponse env (some hrm)) Q E
  queue : ∀ hrm, found hrm → Spec known.edited (materializeAndQueueResponse env hrm) Q E

namespace AnswerProof
variable {env} {found : Option Handler → Prop} {known : Checkpoints}
  {Q : MhdResult → Session → Prop} {E : Exc → Session → Prop}

theorem hit (parts : AnswerProof env found known Q E) {hrm : Handler} (here : found (some hrm)) :
    Spec known.routed (answerFound env hrm) Q E := by
  refine spec_bind (parts.stamp hrm here) fun _ => ?_
  refine spec_bind (parts.resolved (some hrm)) fun _ => ?_
  refine spec_bind (parts.before hrm here) fun answered => ?_
  cases answered with
  | true => exact parts.early hrm here
  | false =>
    refine spec_bind (parts.dispatch hrm here) fun _ => ?_
    exact spec_bind (parts.edited (some hrm) here) fun _ => parts.queue (some hrm) here

theorem miss (parts : AnswerProof env found known Q E) (here : found none) :
    Spec known.routed (answerMissing env) Q E := by
  refine spec_bind (spec_pre (parts.resolved none) (parts.missed here)) fun _ => ?_
  refine spec_bind (parts.missing here) fun _ => ?_
  exact spec_bind (parts.edited none here) fun _ => parts.queue none here

theorem spec (parts : AnswerProof env found known Q E) :
    Spec known.start (do
      let conn ← getConn
      if conn.skipHandler then materializeAndQueueResponse env none else answerRouted env) Q E := by
  refine spec_bind spec_getConn fun conn => ?_
  split
  case isTrue skips =>
    refine spec_pre parts.skipped ?_
    rintro s ⟨rfl, start⟩
    exact ⟨start, skips⟩
  case isFalse routes =>
    refine spec_bind (spec_pre parts.resolve ?_) fun hrm => spec_assume fun here => ?_
    · rintro s ⟨rfl, start⟩
      exact ⟨start, Bool.eq_false_iff.mpr routes⟩
    · cases hrm with
      | some hrm => exact parts.hit here
      | none => exact parts.miss here

end AnswerProof

/-- A proof about `finalize_answer`, part by part: `P` holds until the handler
    is about to run, `D` when it does, and `A` once there is an answer. -/
structure FinalizeProof (env : Env) (w : WireRequest) (P D A : Session → Prop)
    (Q : MhdResult → Session → Prop) (E : Exc → Session → Prop) : Prop where
  upgrade : Spec P (tryWsUpgrade env w) (fun up s => up.elim (P s) fun result => Q result s) E
  resolve : Spec P (resolveResourceForRequest env) (fun _ => P) E
  stamp : ∀ hrm, Spec P (stampResource env hrm) (fun _ => P) E
  resolved : ∀ hrm, Spec P (fireRouteResolvedGated env hrm) (fun _ => P) E
  before : ∀ hrm, Spec P (fireBeforeHandlerGated env hrm)
    (fun answered s => if answered then A s else D s) E
  dispatch : ∀ hrm, Spec D (dispatchResourceHandler env hrm) (fun _ => A) E
  missing : Spec P (emplaceNotFound env) (fun _ => A) E
  edited : ∀ resource, Spec A (fireAfterHandlerGated env resource) (fun _ => A) E
  skipped : ∀ s, P s → A s
  queue : ∀ resource, Spec A (materializeAndQueueResponse env resource) Q E

namespace FinalizeProof
variable {env w} {P D A : Session → Prop} {Q : MhdResult → Session → Prop}
  {E : Exc → Session → Prop}

theorem answer (parts : FinalizeProof env w P D A Q E) :
    AnswerProof env (fun _ => True) ⟨P, P, P, P, A, D, A, A⟩ Q E where
  resolve := spec_adapt parts.resolve (fun _ start => start.1) fun _ _ post => ⟨trivial, post⟩
  stamp hrm _ := parts.stamp hrm
  missed _ _ start := start
  resolved := parts.resolved
  before hrm _ := parts.before hrm
  dispatch hrm _ := parts.dispatch hrm
  missing _ := parts.missing
  edited hrm _ := parts.edited hrm
  skipped := spec_pre (parts.queue none) fun s start => parts.skipped s start.1
  early hrm _ := parts.queue (some hrm)
  queue hrm _ := parts.queue hrm

theorem spec (parts : FinalizeProof env w P D A Q E) : Spec P (finalizeAnswer env w) Q E := by
  refine spec_bind parts.upgrade fun upgraded => ?_
  cases upgraded with
  | some result => exact spec_pure fun _ post => post
  | none => exact parts.answer.spec

end FinalizeProof

-- A server with one resource at `/a`, where user code passes or answers with a fixed
-- page, no hook is registered after construction, and libmicrohttpd takes everything.
def okPage : HttpResponse := .page "ok".toList 200

def quietAnswer : (call : UserCall) → Except Exc call.Answer
  | .authHandler _ => .ok none
  | .notFoundHandler _ => .ok okPage
  | .methodNotAllowedHandler .. => .ok okPage
  | .internalErrorHandler .. => .ok okPage
  | .render .. => .ok okPage
  | .logError _ => .ok ()
  | .logAccess _ => .ok ()

def oneRoute : Server :=
  (Server.fresh 1 Nat.one_pos).call Server.literalEngine ⟨false, false⟩
    (.registerPath "/a".toList (some 1))

def Env.quiet (cfg : WebserverConfig) : Env where
  config := cfg
  hooksAt _ := .constructed cfg
  allowedAt _ _ := .all
  rx := Server.literalEngine
  routes := oneRoute.registry.table
  cache := oneRoute.cache
  wsHandlers := []
  runHook _ _ := .pass
  editResponse _ _ r := r
  observe _ _ := none
  answer _ call := quietAnswer call
  creates _ := true
  createsUpgrade := true
  createsPostProcessor := true
  acceptsKey _ := true
  accepts _ := true
  tmLeft := untouchedTm

def plainRequest : WireRequest where
  url := "/a".toList
  method := "GET".toList
  version := "HTTP/1.1".toList
  headers := []
  chunks := []
  nonempty := by simp

end HttpServer
