import HttpServer.ShortCircuit

/-!
Who is told about an answer. The main path queues the response and then fires
`response_sent` with the response's own status. The WebSocket check queues its
answers itself and fires nothing, and a digest challenge goes out as 401 whatever
status it was given.
-/
namespace HttpServer
open Effect

def Queued.status : Queued → Int
  | .response _ (some _) => 401
  | .response r none => r.statusCode
  | .badHandshake => 400
  | .upgrade .. => 101

/-- What `response_sent` leads to: a server-wide hook is told a status, and
    `log_access` is called. -/
inductive Sighting where
  | hook (fn : HookFn) (status : Int)
  | accessLog
  deriving DecidableEq, Repr

def Event.sighting : Event → Option Sighting
  | .hook ⟨.server, fn, _, .responseSent _ status _⟩ _ => some (.hook fn status)
  | .called (.logAccess _) _ => some .accessLog
  | _ => none

def sightings (h : History) : List Sighting := h.filterMap Event.sighting

def HookState.sightings (st : HookState) (status : Int) : List Sighting :=
  (st.bus.table.hooks .responseSent).map (fun slot => .hook slot.fn status) ++
    if st.bus.logAccessAlias then [.accessLog] else []

/-- `response_sent` is fired once, with the hooks registered at some moment after
    the answer was queued. -/
def FiredOnce (env : Env) (what : Queued) (status : Int) (h : History) : Prop :=
  ∃ before later, h = before ++ later ∧ what ∈ before.filterMap Event.queued ∧
    sightings h = (env.hooksAt before).sightings status

/-- A digest challenge that is handed over carries the status it is sent with. -/
def Event.Truthful (env : Env) : Event → Prop
  | .decorate r => r.CookiesRenderable → (queuedAs env r).status = r.statusCode
  | _ => True

instance decidableTruthful (env : Env) (e : Event) : Decidable (e.Truthful env) := by
  cases e with
  | decorate r => exact inferInstanceAs (Decidable (_ → _))
  | _ => exact .isTrue trivial

/-- `fire_response_sent` copies the hook table when the answer is queued and the
    two gates are read. -/
def FiringRead (before h : History) : Prop :=
  ∃ front what accepted, before = front ++ [.queue what accepted, .sharedRead, .sharedRead] ∧
    before ++ [.sharedRead] <+: h

/-- The condition under which everyone who is there is told the truth. -/
structure Announced (env : Env) (w : WireRequest) (h : History) : Prop where
  unupgraded : Unupgraded env w ∨ (env.hooksAt h).sightings 0 = []
  truthful : (∀ e ∈ h, e.Truthful env) ∨
    ∀ before, FiringRead before h → (env.hooksAt before).bus.table.hooks .responseSent = []

def sightingKinds : List EventKind := [.hook .responseSent, .logAccess]

theorem sighting_of_other {e : Event} (other : e.kind ∉ sightingKinds) : e.sighting = none := by
  unfold Event.sighting
  split
  · exact absurd (by simp [sightingKinds, Event.kind, HookCtx.phase]) other
  · exact absurd (by simp [sightingKinds, Event.kind, UserCall.kind]) other
  · rfl

theorem sightings_append (h new : History) : sightings (h ++ new) = sightings h ++ sightings new :=
  List.filterMap_append

theorem sightings_of_other {new : History} (other : ∀ e ∈ new, e.kind ∉ sightingKinds) :
    sightings new = [] := by
  rw [sightings, List.filterMap_eq_nil_iff]
  exact fun e listed => sighting_of_other (other e listed)

section
variable {env : Env} {what : Queued} {st : HookState} {before : History} {told : List Sighting}
  {E : Exc → Session → Prop}

def Told (before : History) (told : List Sighting) (h : History) : Prop :=
  before ++ [.sharedRead] <+: h ∧ sightings h = told

variable {h front : History} {r : HttpResponse} {status : Int} {accepted : Bool}

theorem Told.append (seen : Told before told h) (new : History) :
    Told before (told ++ sightings new) (h ++ new) := by
  refine ⟨seen.1.trans (List.prefix_append h new), ?_⟩
  rw [sightings_append, seen.2]

variable {α γ : Type} {view : Conn → γ} {kinds : EventKind → Prop} {x : DispatchM α}
  {start new : History}

theorem told_calm (calm : Calm view kinds x) (other : ∀ k ∈ sightingKinds, ¬kinds k) :
    Spec (fun s => Told before told s.history) x
      (fun _ s => Told before told s.history) E := by
  refine calm.history_spec (I := Told before told) fun h new seen sound => ?_
  have more := seen.append new
  rw [sightings_of_other fun e listed watched => other e.kind watched (sound e listed),
    List.append_nil] at more
  exact more

def HookScope.sightings (scope : HookScope) (status : Int) (fns : List HookFn) : List Sighting :=
  match scope with
  | .server => fns.map (.hook · status)
  | .route => []

theorem told_fireVoid (scope : HookScope) (r : HttpResponse) (status : Int) (bytes : Nat)
    (fns : List HookFn) :
    Spec (fun s => Told before told s.history)
      (fireVoid env scope (fun _ => .responseSent r status bytes) fns)
      (fun _ s => Told before (told ++ scope.sightings status fns) s.history) E := by
  have nobody : told ++ scope.sightings status [] = told := by
    cases scope with
    | server => exact List.append_nil told
    | route => exact List.append_nil told
  have fired := @spec_fireVoid env scope (fun _ => .responseSent r status bytes)
    (fun done => Told before (told ++ scope.sightings status done)) E ?_ ?_ [] fns
  · rwa [nobody] at fired
  · intro done h new seen sound
    have more := seen.append new
    rwa [sightings_of_other fun e listed => by simp [sound e listed, sightingKinds],
      List.append_nil] at more
  · intro done fn h request _ outcome seen
    have more := seen.append [.hook ⟨scope, fn, request, .responseSent r status bytes⟩ outcome]
    cases scope with
    | server => simpa [HookScope.sightings, sightings, Event.sighting] using more
    | route =>
      rw [show sightings [.hook ⟨.route, fn, request, .responseSent r status bytes⟩ outcome] = []
        from rfl, List.append_nil] at more
      exact more

theorem told_fireLogAccessAlias :
    Spec (fun s => Told before told s.history) (fireLogAccessAlias env)
      (fun _ s => Told before (told ++ [.accessLog]) s.history) E := by
  refine spec_bind spec_getConn_frame fun conn => spec_tryCatch (M := fun _ s =>
    Told before (told ++ [.accessLog]) s.history) (spec_callUser env ?_ ?_) fun e =>
      told_calm (calm_logDispatchError env _) (by simp [sightingKinds])
  · exact fun s a seen => seen.append [_]
  · exact fun s e seen => seen.append [_]

/-- The phase is fired with the table that is copied behind the gates, or the gates
    are closed and nobody is there. -/
inductive Fired (env : Env) (start : History) (status : Int) (h : History) : Prop where
  | told (seen : Told (start ++ [.sharedRead, .sharedRead])
      ((env.hooksAt (start ++ [.sharedRead, .sharedRead])).sightings status) h)
  | closed (whole : h = start ++ [.sharedRead, .sharedRead]) (unseen : sightings h = [])
      (nobody : (env.hooksAt start).sightings status = [])

theorem fired_fireResponseSent (unseen : sightings before = []) (r : HttpResponse) (status : Int)
    (bytes : Nat) :
    Spec (fun s => s.history = before) (fireResponseSent env (.responseSent r status bytes))
      (fun _ s => Told before ((env.hooksAt before).sightings status) s.history) E := by
  have reads : Spec (fun s => s.history = before) (readHooks env)
      (fun st s => st = env.hooksAt before ∧ Told before [] s.history) E := by
    refine spec_readHooks env ?_
    rintro s rfl
    refine ⟨rfl, List.prefix_rfl, ?_⟩
    rw [sightings_append, unseen]
    rfl
  refine spec_bind reads fun st => spec_assume ?_
  rintro rfl
  refine spec_bind (told_fireVoid .server r status bytes _) fun _ => ?_
  rw [List.nil_append, HookState.sightings]
  split
  · refine spec_post told_fireLogAccessAlias ?_
    intro _ s seen
    simpa [HookScope.sightings, Function.comp_def] using seen
  · exact spec_pure fun s seen => by simpa [HookScope.sightings, Function.comp_def] using seen

theorem fired_fireRouteVoid (gate : Bool) (resource : Option Handler) (r : HttpResponse)
    (status : Int) (bytes : Nat) :
    Spec (fun s => Told before told s.history)
      (fireRouteVoid env gate resource .responseSent (.responseSent r status bytes))
      (fun _ s => Told before told s.history) E := by
  unfold fireRouteVoid
  split
  · have reads (res : Handler) : Calm Conn.apart (· = .sharedRead)
        (routeHooks env res .responseSent) :=
      .bind (.readHooks env rfl) fun _ => .pure _
    refine spec_bind (told_calm (reads _) (by simp [sightingKinds])) fun fns => ?_
    have fired := @told_fireVoid env before told E .route r status bytes fns
    rwa [HookScope.sightings, List.append_nil] at fired
  · exact spec_pure fun _ seen => seen

theorem fired_fireResponseSentGated (unseen : sightings start = []) (resource : Option Handler) :
    Spec (fun s => s.history = start ∧ s.conn.response = some r)
      (fireResponseSentGated env resource)
      (fun _ s => Fired env start r.statusCode s.history) E := by
  refine spec_bind (M := fun st s => st = env.hooksAt start ∧
    s.history = start ++ [.sharedRead] ∧ s.conn.response = some r)
    (spec_readHooks env ?_) fun st => spec_assume fun read => ?_
  · rintro s ⟨rfl, kept⟩
    exact ⟨rfl, rfl, kept⟩
  refine spec_bind (M := fun _ s => s.history = start ++ [.sharedRead, .sharedRead] ∧
    s.conn.response = some r) (spec_bind (M := fun _ s =>
      s.history = start ++ [.sharedRead, .sharedRead] ∧ s.conn.response = some r)
      (spec_readHooks env fun s here => ⟨?_, here.2⟩) fun _ => spec_pure fun _ here => here)
    fun route => ?_
  · rw [here.1, List.append_assoc]
    rfl
  refine spec_getConn_bind (K := fun conn => conn.response = some r)
    (fun s here => here.symm) fun conn present => ?_
  rw [present]
  dsimp only
  have quiet : sightings (start ++ [.sharedRead, .sharedRead]) = [] := by
    rw [sightings_append, unseen]
    rfl
  split
  · refine spec_bind (fired_fireResponseSent quiet r _ _) fun _ => ?_
    exact spec_post (fired_fireRouteVoid route resource r _ _) fun _ s seen => .told seen
  · rename_i closed
    refine spec_pure fun s whole => .closed whole (whole ▸ quiet) ?_
    simp only [Bool.or_eq_true, not_or, Bool.not_eq_true] at closed
    have none_ : st.bus.table.hooks .responseSent = [] := by
      by_contra some_
      have opened := st.bus.table.gated .responseSent some_
      rw [show st.bus.table.gate .responseSent = false from closed.1.1] at opened
      cases opened
    rw [← read, HookState.sightings, none_, closed.2]
    rfl

def announcingKinds : List EventKind := .queue :: .decorate :: sightingKinds

def Silent (h : History) : Prop := ∀ e ∈ h, e.kind ∉ announcingKinds

theorem Silent.append (silent : Silent h) (more : Silent new) : Silent (h ++ new) := by
  intro e listed
  rcases List.mem_append.mp listed with old | late
  · exact silent e old
  · exact more e late

theorem Silent.unqueued (silent : Silent h) : h.filterMap Event.queued = [] :=
  filterMap_queued_of_quiet fun e listed queue =>
    silent e listed (by simp [queue, announcingKinds])

theorem Silent.unseen (silent : Silent h) : sightings h = [] :=
  sightings_of_other fun e listed seen => silent e listed (by simp [announcingKinds, seen])

theorem truthful_of_other {e : Event} (other : e.kind ≠ .decorate) : e.Truthful env := by
  cases e with
  | decorate r => exact absurd rfl other
  | _ => trivial

theorem Silent.truthful (silent : Silent h) : ∀ e ∈ h, e.Truthful env :=
  fun e listed => truthful_of_other fun decorate =>
    silent e listed (by simp [decorate, announcingKinds])

def handedOver (env : Env) (r : HttpResponse) (front : History) : History :=
  front ++ [.decorate r] ++ [.queue (queuedAs env r) (env.accepts (queuedAs env r))]

inductive Concluded (env : Env) (s : Session) : Prop where
  | unanswered (unqueued : queueOf s = []) (truthful : ∀ e ∈ s.history, e.Truthful env)
  | sent (r : HttpResponse) (front : History) (queued : queueOf s = [queuedAs env r])
      (fired : Fired env (handedOver env r front) r.statusCode s.history)
      (decorated : .decorate r ∈ s.history) (renderable : r.CookiesRenderable)
      (others : ∀ e ∈ s.history, e = .decorate r ∨ e.Truthful env)

theorem Silent.concluded {s : Session} (silent : Silent s.history) : Concluded env s :=
  .unanswered silent.unqueued silent.truthful

theorem silent_emits (emits : EmitsOnly view kinds x) (other : ∀ k ∈ announcingKinds, ¬kinds k) :
    Spec (fun s => Silent s.history) x (fun _ s => Silent s.history) fun _ => Concluded env := by
  refine spec_mono (emits.history_spec (I := Silent) fun h new silent sound => ?_)
    (fun _ start => start) (fun _ _ post => post) fun _ _ raised => Silent.concluded raised
  exact silent.append fun e listed watched => other e.kind watched (sound e listed)

structure Handed (env : Env) (r : HttpResponse) (h : History) : Prop where
  queued : h.filterMap Event.queued = [queuedAs env r]
  decorated : .decorate r ∈ h
  others : ∀ e ∈ h, e = .decorate r ∨ e.Truthful env

theorem Handed.append (handed : Handed env r h)
    (quiet : ∀ e ∈ new, e.kind ≠ .queue ∧ e.kind ≠ .decorate) : Handed env r (h ++ new) where
  queued := by
    rw [filterMap_queued_append fun e listed => (quiet e listed).1]
    exact handed.queued
  decorated := List.mem_append_left new handed.decorated
  others e listed := by
    rcases List.mem_append.mp listed with old | late
    · exact handed.others e old
    · exact Or.inr (truthful_of_other (quiet e late).2)

theorem handed_fresh (silent : Silent front) : Handed env r (handedOver env r front) where
  queued := by
    rw [handedOver, List.append_assoc, List.filterMap_append, silent.unqueued]
    rfl
  decorated := by simp [handedOver]
  others e listed := by
    rw [handedOver, List.append_assoc] at listed
    rcases List.mem_append.mp listed with old | late
    · exact Or.inr (silent.truthful e old)
    · rcases List.mem_cons.mp late with rfl | last
      · exact Or.inl rfl
      · exact Or.inr (List.mem_singleton.mp last ▸ trivial)

theorem concluded_decorate (r : HttpResponse) :
    Spec (fun s => Silent s.history ∧ s.conn.response = some r) (decorateMhdResponse env r)
      (fun _ s => r.CookiesRenderable ∧ ∃ front, Silent front ∧
        (s.history = front ++ [.decorate r] ∧ s.conn.response = some r))
      fun _ => Concluded env := by
  refine spec_bind (M := fun _ s => ∃ front, Silent front ∧
    (s.history = front ++ [.decorate r] ∧ s.conn.response = some r))
    (spec_emit fun s start => ⟨s.history, start.1, rfl, start.2⟩) fun _ => ?_
  rcases r.setCookieLines_cases env.tmLeft with ⟨renderable, lines, rendered⟩ | ⟨bad, e, failed⟩
  · rw [rendered]
    exact spec_pure fun _ start => ⟨renderable, start⟩
  · rw [failed]
    refine spec_throw fun s start => ?_
    obtain ⟨front, silent, whole, -⟩ := start
    refine .unanswered ?_ fun e listed => ?_
    · rw [queueOf, whole, List.filterMap_append, silent.unqueued]
      rfl
    · rw [whole] at listed
      rcases List.mem_append.mp listed with old | late
      · exact silent.truthful e old
      · rw [List.mem_singleton.mp late]
        exact fun renderable => absurd renderable bad

theorem handed_queueResponse :
    Spec (fun s => s.history = front ++ [.decorate r] ∧ s.conn.response = some r)
      (queueResponseDispatchingKind env r)
      (fun _ s => s.history = handedOver env r front ∧ s.conn.response = some r) E := by
  refine spec_bind (M := fun _ s => s.history = handedOver env r front ∧
    s.conn.response = some r) (spec_emit ?_) fun _ => spec_pure fun _ post => post
  rintro s ⟨whole, kept⟩
  exact ⟨congrArg (· ++ _) whole, kept⟩

theorem handed_fireResponseSentGated (resource : Option Handler) :
    Spec (fun s => Handed env r s.history) (fireResponseSentGated env resource)
      (fun _ s => Handed env r s.history) E := by
  refine (calm_fireResponseSentGated env resource).history_spec (I := Handed env r)
    fun h new handed sound => handed.append fun e listed => ?_
  have other : ∀ k ∈ responseSentKinds, k ≠ .queue ∧ k ≠ .decorate := by decide
  exact other e.kind (sound e listed)

theorem concluded_handOver (resource : Option Handler) (r : HttpResponse) :
    Spec (fun s => Silent s.history ∧ s.conn.response = some r) (do
        decorateMhdResponse env r
        let toRet ← queueResponseDispatchingKind env r
        fireResponseSentGated env resource
        pure toRet) (fun _ => Concluded env) fun _ => Concluded env := by
  refine spec_bind (concluded_decorate r) fun _ => spec_assume fun renderable =>
    spec_exists fun front => spec_assume fun silent => ?_
  have unseen : sightings (handedOver env r front) = [] := by
    rw [handedOver, List.append_assoc, sightings_append, silent.unseen]
    rfl
  refine spec_bind handed_queueResponse fun result => ?_
  refine spec_bind (spec_both (fired_fireResponseSentGated unseen resource)
    (spec_pre (handed_fireResponseSentGated resource) fun _ start =>
      start.1 ▸ handed_fresh silent)) fun _ => spec_pure fun s post => ?_
  exact .sent r front post.2.queued post.1 post.2.decorated renderable post.2.others

theorem concluded_queueResponse (resource : Option Handler) :
    Spec (fun s => Silent s.history) (materializeAndQueueResponse env resource)
      (fun _ => Concluded env) fun _ => Concluded env := by
  refine spec_bind (spec_both (silent_emits (calm_rawOrForced500 env).emits (by decide))
    present_rawOrForced500) fun raw => ?_
  cases raw with
  | false => exact spec_pure fun s start => start.1.concluded
  | true =>
    refine spec_pre (spec_exists (P := fun r s => Silent s.history ∧ s.conn.response = some r)
      fun r => ?_) fun s start => (start.2 rfl).imp fun r kept => ⟨start.1, kept⟩
    refine spec_getConn_bind (K := fun conn => conn.response = some r)
      (fun s start => ⟨start.2, start⟩) fun conn kept => ?_
    rw [kept]
    exact concluded_handOver resource r

theorem concluded_answer :
    AnswerProof env (fun _ => True) (.uniform fun s => Silent s.history) (fun _ => Concluded env)
      fun _ => Concluded env :=
  .ofHistory
    (fun h new silent sound => silent.append fun e listed => by
      have other : ∀ k ∈ preparingKinds, k ∉ announcingKinds := by decide
      exact other e.kind (sound e listed))
    (fun _ _ silent => silent.concluded)
    (spec_adapt (silent_emits (calm_resolveResourceForRequest env).emits (by decide))
      (fun _ start => start.1) fun _ _ silent => ⟨trivial, silent⟩)
    (fun hrm _ => silent_emits (calm_fireBeforeHandlerGated env hrm).emits (by decide))
    (fun hrm _ => silent_emits (calm_dispatchResourceHandler env hrm).emits (by decide))
    (spec_pre (concluded_queueResponse none) fun _ start => start.1)
    fun hrm _ => concluded_queueResponse hrm

theorem undisturbed_silent : Undisturbed Silent := by
  intro h new silent sound
  refine silent.append fun e listed => ?_
  have other : ∀ k ∈ receivingKinds, k ∉ announcingKinds := by decide
  exact other e.kind (sound e listed)

theorem silent_nil : Silent [] := by
  intro e listed
  cases listed

variable {w : WireRequest}

theorem concluded_of_declined (declined : upgradeAnswer env w (w.dispatched env.config) = none) :
    Concluded env (after (serve env w) {}) := by
  have last : Spec (fun s => Silent s.history ∧ s.conn.ReadyFor (w.dispatched env.config))
      (finalizeAnswer env w) (fun _ => Concluded env) fun _ => Concluded env := by
    refine spec_bind (spec_pre (spec_tryWsUpgrade_declined env w declined) fun _ start =>
      ⟨start.1, start.2.2⟩) fun up => spec_assume fun none_ => ?_
    rw [none_]
    exact concluded_answer.spec
  exact spec_after (spec_serve env w undisturbed_silent last) ⟨silent_nil, rfl⟩

theorem history_of_upgrade {what : Queued}
    (answer : upgradeAnswer env w (w.dispatched env.config) = some what) :
    ∃ front, Silent front ∧
      (after (serve env w) {}).history = front ++ [.queue what (env.accepts what)] := by
  have last : Spec (fun s => Silent s.history ∧ s.conn.ReadyFor (w.dispatched env.config))
      (finalizeAnswer env w) (fun _ s => ∃ front, Silent front ∧
        s.history = front ++ [.queue what (env.accepts what)])
      fun _ s => ∃ front, Silent front ∧
        s.history = front ++ [.queue what (env.accepts what)] := by
    refine spec_bind (spec_pre (spec_tryWsUpgrade_answered env w answer) fun _ start =>
      ⟨start.1, start.2.2⟩) fun up => spec_assume fun some_ => ?_
    obtain ⟨result, rfl⟩ := Option.isSome_iff_exists.mp some_
    refine spec_pure ?_
    rintro s ⟨t, silent, rfl⟩
    exact ⟨t.history, silent, rfl⟩
  exact spec_after (spec_serve env w undisturbed_silent last) ⟨silent_nil, rfl⟩

theorem sightings_eq_nil (nobody : st.sightings status = []) (other : Int) :
    st.sightings other = [] := by
  obtain ⟨hooks, slot⟩ := List.append_eq_nil_iff.mp nobody
  rw [HookState.sightings, slot, List.map_eq_nil_iff.mp hooks]
  rfl

theorem status_of_sighting {code : Int} {fn : HookFn} (seen : .hook fn code ∈ st.sightings status) :
    code = status := by
  rcases List.mem_append.mp seen with hook | slot
  · obtain ⟨slot, -, form⟩ := List.mem_map.mp hook
    injection form with _ code
    exact code.symm
  · split at slot
    · cases List.mem_singleton.mp slot
    · cases slot

theorem sightings_of_no_hook (unhooked : st.bus.table.hooks .responseSent = [])
    (status other : Int) : st.sightings other = st.sightings status := by
  rw [HookState.sightings, HookState.sightings, unhooked]
  rfl

theorem takeWhile_unqueued {back : History} {last : Queued}
    (one : (front ++ .queue what accepted :: back).filterMap Event.queued = [last]) :
    (front ++ .queue what accepted :: back).takeWhile (fun e => e.queued.isNone) = front := by
  have count := congrArg List.length one
  rw [List.filterMap_append, List.filterMap_cons] at count
  have none_ : front.filterMap Event.queued = [] := by
    simp only [Event.queued, List.length_append, List.length_cons, List.length_nil] at count
    exact List.length_eq_zero_iff.mp (by omega)
  rw [List.takeWhile_append_of_pos fun e listed => Option.isNone_iff_eq_none.mpr
    (List.filterMap_eq_nil_iff.mp none_ e listed)]
  exact List.append_nil front

theorem FiringRead.unique (read : FiringRead before h) (one : h.filterMap Event.queued = [what])
    (gates : front ++ [.queue what accepted] ++ [.sharedRead, .sharedRead] <+: h) :
    before = front ++ [.queue what accepted] ++ [.sharedRead, .sharedRead] := by
  obtain ⟨front', what', accepted', rfl, later', copied⟩ := read
  obtain ⟨later, rfl⟩ := gates
  simp only [List.append_assoc, List.cons_append, List.nil_append] at one copied ⊢
  have same := takeWhile_unqueued one
  rw [← copied] at one same
  rw [takeWhile_unqueued one] at same
  subst same
  have events := List.append_cancel_left copied
  simp only [List.cons.injEq] at events
  rw [events.1]

theorem firedOnce_last_iff (silent : Silent front) (accepted : Bool) (status : Int) :
    FiredOnce env what status (front ++ [.queue what accepted]) ↔
      (env.hooksAt (front ++ [.queue what accepted])).sightings 0 = [] := by
  have unseen : sightings (front ++ [.queue what accepted]) = [] := by
    rw [sightings_append, silent.unseen]
    rfl
  constructor
  · rintro ⟨before, later, whole, queued, same⟩
    have complete : before = front ++ [.queue what accepted] := by
      rcases List.eq_nil_or_concat later with rfl | ⟨rest, last, rfl⟩
      · exact (whole.trans (List.append_nil before)).symm
      · rw [List.concat_eq_append, ← List.append_assoc] at whole
        rw [(List.append_inj' whole rfl).1] at silent
        have unqueued := silent.unqueued
        rw [List.filterMap_append, List.append_eq_nil_iff] at unqueued
        rw [unqueued.1] at queued
        cases queued
    rw [← complete]
    rw [unseen] at same
    exact sightings_eq_nil same.symm 0
  · intro nobody
    refine ⟨_, [], (List.append_nil _).symm, ?_, ?_⟩
    · rw [List.filterMap_append]
      exact List.mem_append_right _ List.mem_cons_self
    · rw [unseen, sightings_eq_nil nobody]

theorem Fired.firedOnce (fired : Fired env start status h)
    (queued : what ∈ start.filterMap Event.queued) : FiredOnce env what status h := by
  cases fired with
  | told seen =>
    obtain ⟨later, whole⟩ := seen.1
    rw [List.append_assoc] at whole
    refine ⟨_, _, whole.symm, ?_, seen.2⟩
    rw [List.filterMap_append]
    exact List.mem_append_left _ queued
  | closed whole unseen nobody => exact ⟨start, _, whole, queued, unseen.trans nobody.symm⟩

/-- The only table that is copied behind the gates is the one the phase is fired
    with, so another status is as good when it has no hook. -/
theorem firedOnce_status_iff (one : h.filterMap Event.queued = [what])
    (fired : Fired env (front ++ [.queue what accepted]) status h) (other : Int) :
    FiredOnce env what other h ↔ other = status ∨
      ∀ before, FiringRead before h → (env.hooksAt before).bus.table.hooks .responseSent = [] := by
  have queued : what ∈ (front ++ [Event.queue what accepted]).filterMap Event.queued := by
    simp [Event.queued]
  constructor
  · rintro ⟨before', -, -, -, same⟩
    refine or_iff_not_imp_left.mpr fun apart before read => ?_
    cases fired with
    | closed whole =>
      have gates : front ++ [.queue what accepted] ++ [.sharedRead, .sharedRead] <+: h :=
        ⟨[], (List.append_nil _).trans whole.symm⟩
      rw [read.unique one gates, ← whole] at read
      obtain ⟨-, -, -, -, longer⟩ := read
      exact absurd longer.length_le (by simp)
    | told seen =>
      rw [read.unique one ((List.prefix_append _ _).trans seen.1)]
      refine List.eq_nil_iff_forall_not_mem.mpr fun slot listed => apart ?_
      have heard : .hook slot.fn status ∈ sightings h := by
        rw [seen.2]
        exact List.mem_append_left _ (List.mem_map_of_mem listed)
      exact (status_of_sighting (same ▸ heard)).symm
  · rintro (rfl | unhooked)
    · exact fired.firedOnce queued
    · cases fired with
      | closed whole unseen nobody =>
        exact Fired.firedOnce (.closed whole unseen (sightings_eq_nil nobody other)) queued
      | told seen =>
        have read : FiringRead (front ++ [.queue what accepted] ++ [.sharedRead, .sharedRead]) h :=
          ⟨front, what, accepted, by simp, seen.1⟩
        refine Fired.firedOnce (.told ?_) queued
        rw [sightings_of_no_hook (unhooked _ read) status other]
        exact seen

end

/-- Every answer that is queued is announced once, with the status it is sent with,
    exactly when the WebSocket check does not answer or nobody listens, and no
    digest challenge of another status is handed over or no hook listens. -/
theorem answered_requests_announced_iff (env : Env) (w : WireRequest)
    (built : env.config.haveWebsocket = true) :
    (∀ what ∈ queueOf (after (serve env w) {}),
        FiredOnce env what what.status (after (serve env w) {}).history) ↔
      Announced env w (after (serve env w) {}).history := by
  have upgrade := upgradeAnswer_eq_none_iff built w
  cases answer : upgradeAnswer env w (w.dispatched env.config) with
  | some what =>
    have upgraded : ¬Unupgraded env w := by
      intro unupgraded
      rw [WireRequest.dispatched, upgrade.mpr unupgraded] at answer
      cases answer
    obtain ⟨front, silent, whole⟩ := history_of_upgrade answer
    have queued : queueOf (after (serve env w) {}) = [what] := by
      rw [queueOf, whole, List.filterMap_append, silent.unqueued]
      rfl
    have truthful : ∀ e ∈ front ++ [.queue what (env.accepts what)], e.Truthful env := by
      intro e listed
      rcases List.mem_append.mp listed with old | late
      · exact silent.truthful e old
      · exact List.mem_singleton.mp late ▸ trivial
    rw [queued, whole, List.forall_mem_singleton, firedOnce_last_iff silent]
    exact ⟨fun nobody => ⟨Or.inr nobody, Or.inl truthful⟩,
      fun announced => announced.unupgraded.resolve_left upgraded⟩
  | none =>
    have unupgraded := upgrade.mp answer
    cases concluded_of_declined answer with
    | unanswered unqueued truthful =>
      rw [unqueued]
      refine ⟨fun _ => ⟨Or.inl unupgraded, Or.inl truthful⟩, fun _ what listed => ?_⟩
      cases listed
    | sent r front queued fired decorated renderable others =>
      rw [queued, List.forall_mem_singleton, firedOnce_status_iff queued fired]
      refine ⟨fun told => ⟨Or.inl unupgraded, told.imp_left fun same e listed => ?_⟩,
        fun announced => announced.truthful.imp_left fun truthful => ?_⟩
      · rcases others e listed with rfl | truthful
        · exact fun _ => same
        · exact truthful
      · exact truthful _ decorated renderable

-- A server with a `response_sent` hook, an access log and a WebSocket handler.
def listeningEnv : Env :=
  { Env.quiet { logAccess := true } with
    hooksAt := fun _ => (HookState.constructed { logAccess := true }).step
      (.addHook .responseSent .responseSent (some 1) 0)
    wsHandlers := [("/a".toList, 5)] }

theorem plain_answer_announced :
    queueOf (after (serve listeningEnv plainRequest) {}) = [.response okPage none] ∧
      sightings (after (serve listeningEnv plainRequest) {}).history =
        [.hook (.user 1) 200, .accessLog] ∧
      ∀ what ∈ queueOf (after (serve listeningEnv plainRequest) {}),
        FiredOnce listeningEnv what what.status
          (after (serve listeningEnv plainRequest) {}).history := by
  have unupgraded : Unupgraded listeningEnv plainRequest := by
    intro requested
    cases requested
  have truthful : ∀ e ∈ (after (serve listeningEnv plainRequest) {}).history,
      e.Truthful listeningEnv := by
    decide +kernel
  exact ⟨rfl, rfl, (answered_requests_announced_iff listeningEnv plainRequest rfl).mpr
    ⟨Or.inl unupgraded, Or.inl truthful⟩⟩

/-- The connection is upgraded, and neither the hook nor the log hears of it. -/
theorem upgrade_not_announced :
    queueOf (after (serve listeningEnv upgradeRequest) {}) = [.upgrade 5 "k".toList] ∧
      sightings (after (serve listeningEnv upgradeRequest) {}).history = [] ∧
      ¬FiredOnce listeningEnv (.upgrade 5 "k".toList) 101
        (after (serve listeningEnv upgradeRequest) {}).history := by
  refine ⟨rfl, rfl, ?_⟩
  rintro ⟨before, later, -, -, same⟩
  cases same

end HttpServer
