import HttpServer.PhaseRules

/-!
Responses of the pre-handler hooks. A response of a `request_received` or
`body_chunk` hook is kept in the connection and `skip_handler` is set, so that
the rest of the body is ignored and the last call queues it. The WebSocket
check comes before the flag is looked at, and a response that libmicrohttpd
cannot be given is replaced or lost; in every other case the answer is final.
-/
namespace HttpServer
open Effect

def Event.preAnswer : Event → Option HttpResponse
  | .hook call (.respond r) => if call.ctx.phase ∈ receivingPhases then some r else none
  | _ => none

def Event.queued : Event → Option Queued
  | .queue what _ => some what
  | _ => none

/-- What comes after the response of a pre-handler hook: no later hook, no
    resource, and nothing but this response is queued. The WebSocket handler
    would be reached through an upgrade in the queue. -/
def FinalAnswer (r : HttpResponse) (later : History) : Prop :=
  (∀ e ∈ later, e.kind ∉ [.hook .bodyChunk, .hook .beforeHandler, .render]) ∧
    ∃ digest, later.filterMap Event.queued = [.response r digest]

def Unupgraded (env : Env) (w : WireRequest) : Prop :=
  upgradeRequested w = true → ∃ key, validateWebsocketHandshake w = some key ∧
    upgradeHandler env key (dispatchPath env.config.unescaper w.url) = none

def HttpResponse.Sendable (r : HttpResponse) (env : Env) : Prop :=
  r.materializes env.creates = true ∧ r.CookiesRenderable

theorem upgradeAnswer_eq_none_iff {env : Env} (built : env.config.haveWebsocket = true)
    (w : WireRequest) :
    upgradeAnswer env w (dispatchPath env.config.unescaper w.url) = none ↔ Unupgraded env w := by
  unfold upgradeAnswer Unupgraded
  rw [built, Bool.true_and]
  cases upgradeRequested w with
  | false => simp
  | true =>
    cases validateWebsocketHandshake w with
    | none => simp
    | some key => simp

def Unanswered (h : History) : Prop := ∀ e ∈ h, e.preAnswer = none

def AnsweredBy (r : HttpResponse) (h : History) : Prop :=
  ∃ before e, h = before ++ [e] ∧ Unanswered before ∧ e.preAnswer = some r

variable {new h : History} {e : Event}

theorem Unanswered.append (unanswered : Unanswered h) (more : Unanswered new) :
    Unanswered (h ++ new) := by
  intro e member
  rcases List.mem_append.mp member with old | late
  · exact unanswered e old
  · exact more e late

theorem preAnswer_of_finalKind (late : finalKind e.kind) : e.preAnswer = none := by
  unfold Event.preAnswer
  split
  case h_1 call r =>
    rw [if_neg]
    intro early
    exact late _ early rfl
  case h_2 => rfl

theorem unanswered_of_finalKind (late : ∀ e ∈ new, finalKind e.kind) :
    Unanswered new := fun e member => preAnswer_of_finalKind (late e member)

theorem AnsweredBy.split {r r' : HttpResponse} {before later : History} (answered : AnsweredBy r h)
    (quiet : Unanswered new) (whole : h ++ new = before ++ e :: later)
    (response : e.preAnswer = some r') : r' = r ∧ later = new := by
  obtain ⟨first, last, end_, unanswered, found⟩ := answered
  have absent : ∀ {h' : History}, Unanswered h' → e ∉ h' := by
    intro h' none member
    rw [none e member] at response
    cases response
  rcases Trace.split_append whole with ⟨rest, old, added⟩ | ⟨mid, -, added⟩
  · rw [end_] at old
    rcases Trace.split_append old with ⟨tail, inside, -⟩ | ⟨mid, -, single⟩
    · refine absurd ?_ (absent unanswered)
      rw [inside]
      exact List.mem_append_right before List.mem_cons_self
    · cases mid with
      | nil =>
        injection single with same nothing
        rw [same, response] at found
        rw [added, ← nothing]
        exact ⟨Option.some.inj found, rfl⟩
      | cons e' mid => simp at single
  · refine absurd ?_ (absent quiet)
    rw [added]
    exact List.mem_append_right mid List.mem_cons_self

section
variable (env : Env)

def ChainEnd (sc : Option HttpResponse) (h : History) : Prop :=
  match sc with
  | none => Unanswered h
  | some r => AnsweredBy r h

theorem chainEnd_rule {phase : HookPhase} (early : phase ∈ receivingPhases) :
    ChainRule phase ChainEnd where
  quiet h new unanswered sound := by
    have late : ∀ k ∈ bodyKinds, finalKind k := by decide
    exact unanswered.append (unanswered_of_finalKind fun e listed => late e.kind (sound e listed))
  passed h call outcome unanswered _ passes := by
    refine unanswered.append fun e listed => ?_
    rw [List.mem_singleton.mp listed]
    cases outcome with
    | respond r => exact absurd rfl (passes r)
    | pass => rfl
    | threw e => rfl
  responded h call r unanswered fires := by
    refine ⟨h, _, rfl, unanswered, ?_⟩
    simp [Event.preAnswer, fires, early]

theorem chainEnd_receive : ReceiveProof ChainEnd ChainEnd where
  received := chainEnd_rule (by decide)
  chunk := chainEnd_rule (by decide)
  opened _ _ ended := ended

structure Closed (r : HttpResponse) (s : Session) : Prop where
  answered : AnsweredBy r s.history
  skips : s.conn.skipHandler = true
  keeps : s.conn.response = some r

def Received (s : Session) : Prop := Unanswered s.history ∨ ∃ r, Closed r s

variable {r : HttpResponse} {queue : List Queued} {P : Session → Prop} {s : Session} {h₀ : History}

theorem Gathered.received (gathered : Gathered ChainEnd s) : Received s := by
  rcases gathered with ⟨unanswered, -⟩ | ⟨r, answered, skips, keeps⟩
  · exact Or.inl unanswered
  · exact Or.inr ⟨r, answered, skips, keeps⟩

variable (w : WireRequest) {E : Exc → Session → Prop} {env w}

def queueOf (s : Session) : List Queued := s.history.filterMap Event.queued

theorem queueOf_emit (s : Session) (e : Event) :
    queueOf { s with history := s.history ++ [e] } = queueOf s ++ e.queued.toList := by
  rw [queueOf, List.filterMap_append, List.filterMap_cons, List.filterMap_nil]
  cases e.queued with
  | none => rfl
  | some what => rfl

variable {new h : History}

theorem filterMap_queued_of_quiet (quiet : ∀ e ∈ new, e.kind ≠ .queue) :
    new.filterMap Event.queued = [] := by
  rw [List.filterMap_eq_nil_iff]
  intro e member
  unfold Event.queued
  split
  · exact absurd rfl (quiet _ member)
  · rfl

theorem filterMap_queued_append {h new : History} (quiet : ∀ e ∈ new, e.kind ≠ .queue) :
    (h ++ new).filterMap Event.queued = h.filterMap Event.queued := by
  rw [List.filterMap_append, filterMap_queued_of_quiet quiet, List.append_nil]

theorem queue_calm {α γ : Type} {view : Conn → γ} {kinds : EventKind → Prop} {x : DispatchM α}
    (calm : Calm view kinds x) (quiet : ¬kinds .queue) (queue : List Queued) :
    Spec (fun s => queueOf s = queue) x (fun _ s => queueOf s = queue) E := by
  refine calm.history_spec (I := fun h => h.filterMap Event.queued = queue) ?_
  intro h new same sound
  rw [filterMap_queued_append fun e member kind => quiet (kind ▸ sound e member)]
  exact same

theorem spec_materializeResponse :
    Spec (fun s => s.conn.response = some r) (materializeResponse env)
      (fun raw s => raw = r.materializes env.creates ∧ s.conn.response = some r) E := by
  refine spec_bind spec_getConn fun conn => spec_pure ?_
  rintro s ⟨rfl, kept⟩
  rw [kept]
  exact ⟨rfl, rfl⟩

theorem spec_emplaceAndMaterialize (r : HttpResponse) :
    Spec P (emplaceAndMaterialize env r)
      (fun raw s => raw = r.materializes env.creates ∧ s.conn.response = some r) E :=
  spec_bind (M := fun _ s => s.conn.response = some r) (spec_modify fun _ _ => rfl) fun _ =>
    spec_materializeResponse

def Fallback (env : Env) (r : HttpResponse) (raw : Bool) (s : Session) : Prop :=
  ∃ q, (raw = q.materializes env.creates ∧ (r.materializes env.creates = true → q = r)) ∧
    s.conn.response = some q

theorem fallback_replaced (replaced : r.materializes env.creates = false) (q : HttpResponse) :
    Spec P (emplaceAndMaterialize env q) (Fallback env r) E := by
  refine spec_post (spec_emplaceAndMaterialize q) ?_
  intro raw s post
  refine ⟨q, ⟨post.1, fun kept => ?_⟩, post.2⟩
  rw [replaced] at kept
  cases kept

theorem fallback_materializeOrErrorPage :
    Spec (fun s => s.conn.response = some r) (materializeOrErrorPage env) (Fallback env r) E := by
  refine spec_bind spec_materializeResponse fun raw => spec_assume fun created => ?_
  cases raw with
  | true =>
    refine spec_pure fun s kept => ?_
    exact ⟨r, ⟨created, fun _ => rfl⟩, kept⟩
  | false =>
    refine spec_bind (spec_true (calm_runInternalErrorHandlerSafely env _).returns) fun q => ?_
    exact fallback_replaced created.symm q

theorem fallback_rawOrForced500 :
    Spec (fun s => s.conn.response = some r) (rawOrForced500 env) (Fallback env r) E := by
  unfold rawOrForced500
  rw [getRawResponseWithFallback_eq]
  refine spec_bind fallback_materializeOrErrorPage fun raw => ?_
  cases raw with
  | true => exact spec_pure fun _ post => post
  | false =>
    refine spec_exists fun q => spec_assume fun facts => ?_
    have lost : r.materializes env.creates = false := by
      cases created : r.materializes env.creates with
      | false => rfl
      | true =>
        rw [facts.2 created, created] at facts
        cases facts.1
    exact spec_bind (spec_logDispatchError env _) fun _ => fallback_replaced lost _

theorem spec_rawOrForced500 {Q : Bool → Session → Prop} {R : HttpResponse → Prop}
    (made : Spec P (materializeResponse env) Q E)
    (page : ∀ msg, Spec (Q false) (runInternalErrorHandlerSafely env msg) (fun r _ => R r) E)
    (empty : R .empty500) (replaced : ∀ raw s r, R r → s.conn.response = some r → Q raw s) :
    Spec P (rawOrForced500 env) Q E := by
  have emplaced {P : Session → Prop} (r : HttpResponse) (fits : R r) :
      Spec P (emplaceAndMaterialize env r) Q E :=
    spec_post (spec_emplaceAndMaterialize r) fun raw s post => replaced raw s r fits post.2
  unfold rawOrForced500
  rw [getRawResponseWithFallback_eq]
  refine spec_bind (M := Q) (spec_bind made fun raw => ?_) fun raw => ?_
  · cases raw with
    | true => exact spec_pure fun _ post => post
    | false =>
      refine spec_bind (page _) fun r => ?_
      exact spec_given (emplaced r)
  · cases raw with
    | true => exact spec_pure fun _ post => post
    | false => exact spec_bind (spec_logDispatchError env _) fun _ => emplaced .empty500 empty

theorem present_rawOrForced500 :
    Spec P (rawOrForced500 env) (fun raw s => raw = true → ∃ r, s.conn.response = some r) E := by
  refine spec_rawOrForced500 (R := fun _ => True) ?_
    (fun _ => spec_true (calm_runInternalErrorHandlerSafely env _).returns) trivial
    fun _ _ r _ present _ => ⟨r, present⟩
  refine spec_bind spec_getConn fun conn => spec_pure ?_
  rintro s ⟨rfl, -⟩ created
  cases present : s.conn.response with
  | none =>
    rw [present] at created
    cases created
  | some r => exact ⟨r, rfl⟩

def Delivers (env : Env) (r : HttpResponse) (sendable : Prop) (queue : List Queued)
    (s : Session) : Prop :=
  ∃ more, queueOf s = queue ++ more ∧ (sendable → more = [queuedAs env r]) ∧
    (¬sendable → ∀ digest, more ≠ [.response r digest])

theorem queuedAs_response (env : Env) (r : HttpResponse) :
    ∃ digest, queuedAs env r = .response r digest := by
  unfold queuedAs
  split
  · exact ⟨_, rfl⟩
  · exact ⟨_, rfl⟩

theorem delivers_nothing {sendable : Prop} (lost : ¬sendable) (same : queueOf s = queue) :
    Delivers env r sendable queue s := by
  refine ⟨[], ?_, fun holds => absurd holds lost, fun _ digest => ?_⟩
  · rw [same, List.append_nil]
  · exact List.cons_ne_nil _ _ |>.symm

theorem queue_mhdQueue (what : Queued) :
    Spec (fun s => queueOf s = queue) (mhdQueue env what)
      (fun _ s => queueOf s = queue ++ [what]) E := by
  refine spec_bind (M := fun _ s => queueOf s = queue ++ [what]) (spec_emit fun s same => ?_)
    fun _ => spec_pure fun _ post => post
  rw [queueOf_emit, same]
  rfl

/-- A response that was created is decorated and queued, unless a cookie of it
    cannot be rendered. -/
theorem queue_handOver (resource : Option Handler) {q : HttpResponse} :
    Spec (fun s => s.conn.response = some q ∧ queueOf s = queue) (do
        let conn ← getConn
        let r := conn.response.getD {}
        decorateMhdResponse env r
        let toRet ← queueResponseDispatchingKind env r
        fireResponseSentGated env resource
        pure toRet)
      (fun _ s => q.CookiesRenderable ∧ queueOf s = queue ++ [queuedAs env q])
      fun _ s => ¬q.CookiesRenderable ∧ queueOf s = queue := by
  refine spec_getConn_bind (K := fun conn => conn.response = some q) (fun s start => start)
    fun conn kept => ?_
  rw [kept]
  refine spec_bind (M := fun _ s => q.CookiesRenderable ∧ queueOf s = queue) ?_
    fun _ => spec_assume fun renderable => ?_
  · refine spec_bind (M := fun _ s => queueOf s = queue) (spec_emit fun s same => ?_) fun _ => ?_
    · rw [queueOf_emit, same]
      exact List.append_nil queue
    · rcases q.setCookieLines_cases env.tmLeft with ⟨renderable, lines, rendered⟩ | ⟨bad, e, failed⟩
      · dsimp only [Option.getD_some]
        rw [rendered]
        exact spec_pure fun _ same => ⟨renderable, same⟩
      · dsimp only [Option.getD_some]
        rw [failed]
        exact spec_throw fun _ same => ⟨bad, same⟩
  · refine spec_bind (queue_mhdQueue (queuedAs env q)) fun result => ?_
    refine spec_bind (queue_calm (calm_fireResponseSentGated env resource) (by decide) _)
      fun _ => ?_
    exact spec_pure fun _ post => ⟨renderable, post⟩

theorem delivers_queueResponse (resource : Option Handler) :
    Spec (fun s => s.conn.response = some r ∧ queueOf s = queue)
      (materializeAndQueueResponse env resource)
      (fun _ s => Delivers env r (r.Sendable env) queue s)
      fun _ s => Delivers env r (r.Sendable env) queue s := by
  have kept : Spec (fun s => s.conn.response = some r ∧ queueOf s = queue) (rawOrForced500 env)
      (fun _ s => queueOf s = queue) fun _ _ => False :=
    spec_pre (queue_calm (calm_rawOrForced500 env) (by decide) queue) fun _ start => start.2
  have replaced : Spec (fun s => s.conn.response = some r ∧ queueOf s = queue)
      (rawOrForced500 env) (Fallback env r) fun _ _ => False :=
    spec_pre fallback_rawOrForced500 fun _ start => start.1
  refine spec_bind (M := fun raw s => ∃ q, (raw = q.materializes env.creates ∧
      (r.materializes env.creates = true → q = r)) ∧
      (s.conn.response = some q ∧ queueOf s = queue))
    (spec_mono (spec_and kept replaced) (fun _ start => start) ?_ fun _ _ raised => raised.1.elim)
    fun raw => spec_exists fun q => spec_assume fun facts => ?_
  · rintro raw s ⟨same, q, facts, response⟩
    exact ⟨q, facts, response, same⟩
  obtain ⟨created, kept⟩ := facts
  cases raw with
  | false =>
    have lost : ¬r.Sendable env := by
      intro sendable
      rw [kept sendable.1, sendable.1] at created
      cases created
    exact spec_pure fun s start => delivers_nothing lost start.2
  | true =>
    refine spec_mono (queue_handOver resource) (fun _ start => start) ?_ ?_
    · rintro result s ⟨renderable, queued⟩
      refine ⟨[queuedAs env q], queued, fun sendable => ?_, fun lost digest same => ?_⟩
      · rw [kept sendable.1]
      · -- the queued response materialises and renders, so it is not `r`
        obtain ⟨digest', form⟩ := queuedAs_response env q
        rw [form] at same
        injection same with head
        injection head with other
        rw [← other] at lost
        exact lost ⟨created.symm, renderable⟩
    · rintro e s ⟨bad, same⟩
      refine delivers_nothing (fun sendable => bad ?_) same
      rw [kept sendable.1]
      exact sendable.2

theorem upgradeAnswer_not_response {w : WireRequest} {url : Str} {what : Queued}
    (answer : upgradeAnswer env w url = some what) (r : HttpResponse) (digest : Option DigestArgs) :
    what ≠ .response r digest := by
  unfold upgradeAnswer at answer
  split at answer
  · split at answer
    · cases answer
      exact Queued.noConfusion
    · obtain ⟨handler, -, rfl⟩ := Option.map_eq_some_iff.mp answer
      exact Queued.noConfusion
  · cases answer

theorem spec_finalizeClosed (w : WireRequest) (built : env.config.haveWebsocket = true) :
    Spec (fun s => (s.conn.skipHandler = true ∧ s.conn.response = some r ∧
        s.conn.standardizedUrl = w.dispatched env.config) ∧ queueOf s = queue)
      (finalizeAnswer env w)
      (fun _ s => Delivers env r (Unupgraded env w ∧ r.Sendable env) queue s)
      fun _ s => Delivers env r (Unupgraded env w ∧ r.Sendable env) queue s := by
  have upgrade := upgradeAnswer_eq_none_iff built w
  have start : ∀ s, ((s.conn.skipHandler = true ∧ s.conn.response = some r ∧
      s.conn.standardizedUrl = w.dispatched env.config) ∧ queueOf s = queue) →
      ((s.conn.skipHandler = true ∧ s.conn.response = some r) ∧ queueOf s = queue) ∧
        s.conn.standardizedUrl = w.dispatched env.config :=
    fun s start => ⟨⟨⟨start.1.1, start.1.2.1⟩, start.2⟩, start.1.2.2⟩
  cases answer : upgradeAnswer env w (w.dispatched env.config) with
  | some what =>
    have lost : ¬(Unupgraded env w ∧ r.Sendable env) := by
      intro condition
      rw [WireRequest.dispatched, upgrade.mpr condition.1] at answer
      cases answer
    refine spec_bind (spec_pre (spec_tryWsUpgrade_answered env w answer) start) fun up =>
      spec_assume fun some_ => ?_
    obtain ⟨result, rfl⟩ := Option.isSome_iff_exists.mp some_
    refine spec_pure ?_
    rintro s ⟨t, ⟨-, queued⟩, rfl⟩
    refine ⟨[what], ?_, fun holds => absurd holds lost, fun _ digest same => ?_⟩
    · rw [queueOf_emit, queued]
      rfl
    · injection same with head
      exact upgradeAnswer_not_response answer r digest head
  | none =>
    have condition : (Unupgraded env w ∧ r.Sendable env) = r.Sendable env := by
      simp [upgrade.mp answer]
    rw [condition]
    refine spec_bind (spec_pre (spec_tryWsUpgrade_declined env w answer) start) fun up =>
      spec_assume fun none_ => ?_
    rw [none_]
    refine spec_getConn_bind (K := fun conn => conn.skipHandler = true)
      (I := fun s => s.conn.response = some r ∧ queueOf s = queue)
      (fun s start => and_assoc.mp start) fun conn skips => ?_
    rw [if_pos skips]
    exact delivers_queueResponse none

def Queueing (h₀ h : History) : Prop := ∃ new, h = h₀ ++ new ∧ ∀ e ∈ new, e.kind ∈ queueingKinds

theorem Queueing.append (queueing : Queueing h₀ h) (sound : ∀ e ∈ new, e.kind ∈ queueingKinds) :
    Queueing h₀ (h ++ new) := by
  obtain ⟨first, whole, early⟩ := queueing
  refine ⟨first ++ new, ?_, fun e member => ?_⟩
  · rw [whole, List.append_assoc]
  · rcases List.mem_append.mp member with old | late
    · exact early e old
    · exact sound e late

theorem queueing_finalizeClosed (w : WireRequest) :
    Spec (fun s => s.conn.skipHandler = true ∧ Queueing h₀ s.history) (finalizeAnswer env w)
      (fun _ s => Queueing h₀ s.history) fun _ s => Queueing h₀ s.history := by
  have upgrade : EmitsOnly Conn.identity (· ∈ queueingKinds) (tryWsUpgrade env w) :=
    ((calm_tryWsUpgrade env w).emits.mono (by simp [queueingKinds])).weaken identity_of_apart
  refine spec_bind (M := fun _ s => s.conn.skipHandler = true ∧ Queueing h₀ s.history)
    (spec_mono (spec_of_steps (I := fun s => s.conn.skipHandler = true ∧ Queueing h₀ s.history)
      upgrade ?_) (fun _ start => start) (fun _ _ post => post) fun _ _ raised => raised.2)
    fun upgraded => ?_
  · rintro s t ⟨skips, queueing⟩ ⟨⟨new, whole, sound⟩, same⟩
    rw [whole]
    have skip : t.conn.skipHandler = s.conn.skipHandler := congrArg (·.2.2) same
    exact ⟨skip.trans skips, queueing.append sound⟩
  · cases upgraded with
    | some result => exact spec_pure fun _ post => post.2
    | none =>
      refine spec_getConn_bind (K := fun conn => conn.skipHandler = true) (fun s start => start)
        fun conn skips => ?_
      rw [if_pos skips]
      exact (emits_materializeAndQueueResponse env none).history_spec
        fun h new queueing sound => queueing.append sound

def Judged (env : Env) (w : WireRequest) (h : History) : Prop :=
  ∀ before e later r, h = before ++ e :: later → e.preAnswer = some r →
    (FinalAnswer r later ↔ Unupgraded env w ∧ r.Sendable env)

theorem Unanswered.judged (unanswered : Unanswered h) (env : Env) (w : WireRequest) :
    Judged env w h := by
  intro before e later r whole response
  have member : e ∈ h := by
    rw [whole]
    exact List.mem_append_right before List.mem_cons_self
  rw [unanswered e member] at response
  cases response

theorem judged_of_delivers (w : WireRequest) (answered : AnsweredBy r h₀)
    (queueing : Queueing h₀ s.history)
    (delivers : Delivers env r (Unupgraded env w ∧ r.Sendable env)
      (h₀.filterMap Event.queued) s) : Judged env w s.history := by
  obtain ⟨new, grown, sound⟩ := queueing
  obtain ⟨more, queued, final, lost⟩ := delivers
  have late : ∀ k ∈ queueingKinds, finalKind k ∧
      k ∉ [.hook .bodyChunk, .hook .beforeHandler, .render] := by decide
  have same : new.filterMap Event.queued = more := by
    unfold queueOf at queued
    rw [grown, List.filterMap_append] at queued
    exact List.append_cancel_left queued
  intro before e later r' whole response
  rw [grown] at whole
  have quiet : Unanswered new :=
    unanswered_of_finalKind fun e member => (late _ (sound e member)).1
  obtain ⟨rfl, rfl⟩ := answered.split quiet whole response
  constructor
  · rintro ⟨-, digest, one⟩
    by_contra condition
    exact lost condition digest (same.symm.trans one)
  · intro condition
    obtain ⟨digest, form⟩ := queuedAs_response env r'
    refine ⟨fun e member => (late _ (sound e member)).2, digest, ?_⟩
    rw [same, final condition, form]

theorem judged_finalizeAnswer (w : WireRequest) (built : env.config.haveWebsocket = true) :
    Spec (fun s => Received s ∧ s.conn.ReadyFor (w.dispatched env.config)) (finalizeAnswer env w)
      (fun _ s => Judged env w s.history) fun _ s => Judged env w s.history := by
  intro s start
  rcases start.1 with unanswered | ⟨r, closed⟩
  · have open_ := (emits_finalizeAnswer env w).history_spec (I := Unanswered)
      fun h new none sound => none.append (unanswered_of_finalKind sound)
    have both := open_ s unanswered
    exact ⟨fun a run => (both.1 a run).judged env w, fun e run => (both.2 e run).judged env w⟩
  · have grows : Spec (fun t => t.conn.skipHandler = true ∧ Queueing s.history t.history)
        (finalizeAnswer env w) _ _ := queueing_finalizeClosed w
    have queueing := grows s ⟨closed.skips, [], by simp, by simp⟩
    have delivers := spec_finalizeClosed w built s
      ⟨⟨closed.skips, closed.keeps, start.2.2⟩, rfl⟩
    refine ⟨fun a run => ?_, fun e run => ?_⟩
    · exact judged_of_delivers w closed.answered (queueing.1 a run) (delivers.1 a run)
    · exact judged_of_delivers w closed.answered (queueing.2 e run) (delivers.2 e run)

end

/-- The response of a pre-handler hook is final exactly when the request is not
    answered as a WebSocket upgrade and libmicrohttpd can be given the response. -/
theorem short_circuit_final_iff (env : Env) (w : WireRequest)
    (built : env.config.haveWebsocket = true) {before later : History} {call : HookCall}
    {r : HttpResponse}
    (responded : (after (serve env w) {}).history = before ++ .hook call (.respond r) :: later)
    (early : call.ctx.phase ∈ receivingPhases) :
    FinalAnswer r later ↔ Unupgraded env w ∧ r.Sendable env := by
  have run : Spec _ (serve env w) (fun _ s => Judged env w s.history)
      fun _ s => Judged env w s.history := spec_bind chainEnd_receive.spec fun _ =>
    spec_lastCall env w (J := Gathered ChainEnd) (spec_pre (judged_finalizeAnswer w built)
      fun _ start => ⟨start.1.received, start.2⟩) fun s request gathered => gathered
  have nothing : ChainEnd none [] := by
    intro e member
    cases member
  have judged : Judged env w (after (serve env w) {}).history :=
    spec_after run ⟨nothing, rfl, rfl⟩
  refine judged _ _ _ r responded ?_
  simp [Event.preAnswer, early]

def forbiddenPage : HttpResponse := .page "Forbidden".toList 403

def answeringEnv : Env :=
  { Env.quiet {} with
    hooksAt := fun _ =>
      (HookState.constructed {}).step (.addHook .requestReceived .requestReceived (some 1) 0)
    runHook := fun _ _ => .respond forbiddenPage
    wsHandlers := [("/a".toList, 5)] }

def answeringCall : HookCall := ⟨.server, .user 1, some {}, .requestReceived⟩

theorem plain_request_answered_by_hook :
    ∃ before later, (after (serve answeringEnv plainRequest) {}).history =
        before ++ .hook answeringCall (.respond forbiddenPage) :: later ∧
      FinalAnswer forbiddenPage later := by
  have responded : (after (serve answeringEnv plainRequest) {}).history =
      (after (serve answeringEnv plainRequest) {}).history.take 2 ++
        .hook answeringCall (.respond forbiddenPage) ::
        (after (serve answeringEnv plainRequest) {}).history.drop 3 := rfl
  have unupgraded : Unupgraded answeringEnv plainRequest := by
    intro requested
    cases requested
  refine ⟨_, _, responded, ?_⟩
  exact (short_circuit_final_iff answeringEnv plainRequest rfl responded (by decide)).mpr
    ⟨unupgraded, rfl, by decide⟩

def upgradeRequest : WireRequest :=
  { plainRequest with
    headers := [("Upgrade".toList, "websocket".toList), ("Connection".toList, "Upgrade".toList),
      ("Sec-WebSocket-Version".toList, "13".toList), ("Sec-WebSocket-Key".toList, "k".toList)] }

/-- The hook answers 403, and the connection is upgraded all the same. -/
theorem upgrade_overrides_hook :
    ∃ before later, (after (serve answeringEnv upgradeRequest) {}).history =
        before ++ .hook answeringCall (.respond forbiddenPage) :: later ∧
      later.filterMap Event.queued = [.upgrade 5 "k".toList] ∧
      ¬FinalAnswer forbiddenPage later := by
  have responded : (after (serve answeringEnv upgradeRequest) {}).history =
      (after (serve answeringEnv upgradeRequest) {}).history.take 2 ++
        .hook answeringCall (.respond forbiddenPage) :: [.queue (.upgrade 5 "k".toList) true] := rfl
  refine ⟨_, _, responded, rfl, ?_⟩
  rintro ⟨-, digest, one⟩
  cases one

end HttpServer
