import HttpServer.RequestRun

/-!
What leaves the dispatch callback. Every call into user code is guarded except
`not_found_handler` on a route miss, and every step of the hand-over to
libmicrohttpd is guarded except the rendering of the cookies. The last call of
a request therefore returns, with one response queued or with `MHD_NO`, exactly
when none of these two throws.
-/
namespace HttpServer
open Effect

def Event.accepted : Event → Bool
  | .queue _ accepted => accepted
  | _ => false

/-- The two steps of a request that may throw outside every `try`, when they
    do not: the answer of `not_found_handler` and the cookies that
    `decorate_mhd_response` renders. -/
def Event.Harmless : Event → Prop
  | .called (.notFoundHandler _) (.error _) => False
  | .decorate r => r.CookiesRenderable
  | _ => True

/-- The last call of the request returns, and has queued one response or
    refused the connection. -/
def Contained (env : Env) (w : WireRequest) : Prop :=
  ∃ result, outcome (serve env w) {} = .ok result ∧
    (result = .no ∨ (after (serve env w) {}).history.countP Event.accepted = 1)

def Settled (n : Nat) (h : History) : Prop :=
  (∀ e ∈ h, e.Harmless) ∧ h.countP Event.accepted = n

theorem settled_nil : Settled 0 [] := by
  refine ⟨?_, rfl⟩
  intro e member
  cases member

theorem Settled.append {n m : Nat} {h new : History} (settled : Settled n h)
    (more : Settled m new) : Settled (n + m) (h ++ new) := by
  constructor
  · intro e member
    rcases List.mem_append.mp member with old | late
    · exact settled.1 e old
    · exact more.1 e late
  · rw [List.countP_append, settled.2, more.2]

def watchedKinds : List EventKind := [.notFoundHandler, .decorate, .queue]

theorem settled_unwatched {e : Event} (other : e.kind ∉ watchedKinds) :
    e.Harmless ∧ e.accepted = false := by
  cases e with
  | sharedRead => exact ⟨trivial, rfl⟩
  | hook call result => exact ⟨trivial, rfl⟩
  | called call answer =>
    cases call with
    | notFoundHandler req => exact absurd (by simp [watchedKinds, Event.kind, UserCall.kind]) other
    | authHandler req => exact ⟨trivial, rfl⟩
    | methodNotAllowedHandler site req => exact ⟨trivial, rfl⟩
    | internalErrorHandler site req message => exact ⟨trivial, rfl⟩
    | render resource method req => exact ⟨trivial, rfl⟩
    | logError message => exact ⟨trivial, rfl⟩
    | logAccess line => exact ⟨trivial, rfl⟩
  | dispatchException message => exact ⟨trivial, rfl⟩
  | decorate r => exact absurd (by simp [watchedKinds, Event.kind]) other
  | queue what accepted => exact absurd (by simp [watchedKinds, Event.kind]) other

theorem Settled.append_unwatched {n : Nat} {h new : History} (settled : Settled n h)
    (other : ∀ e ∈ new, e.kind ∉ watchedKinds) : Settled n (h ++ new) := by
  have quiet : Settled 0 new := by
    constructor
    · intro e member
      exact (settled_unwatched (other e member)).1
    · rw [List.countP_eq_zero]
      intro e member
      rw [(settled_unwatched (other e member)).2]
      exact Bool.false_ne_true
  exact settled.append quiet

theorem settled_singleton (e : Event) (harmless : e.Harmless) :
    Settled (if e.accepted then 1 else 0) [e] := by
  constructor
  · intro e' member
    rw [List.mem_singleton.mp member]
    exact harmless
  · rw [List.countP_singleton]

-- Along a request. `Escaped` is what is known when an exception is on its way.
def Escaped (_ : Exc) (s : Session) : Prop := ∃ e ∈ s.history, ¬e.Harmless

section
variable {env : Env} {α γ : Type} {view : Conn → γ} {kinds : EventKind → Prop} {x : DispatchM α}

theorem settled_calm (calm : Calm view kinds x) (other : ∀ k ∈ watchedKinds, ¬kinds k) (n : Nat) :
    Spec (fun s => Settled n s.history) x (fun _ s => Settled n s.history) Escaped := by
  refine calm.history_spec fun h new settled sound => ?_
  refine settled.append_unwatched fun e member watched => ?_
  exact other e.kind watched (sound e member)

theorem settled_notFoundPage :
    Spec (fun s => Settled 0 s.history) (notFoundPage env) (fun _ s => Settled 0 s.history)
      Escaped := by
  refine spec_bind spec_getConn_frame fun conn => ?_
  split
  · refine spec_callUser env ?_ ?_
    · intro s page settled
      exact settled.append (settled_singleton (.called _ (.ok page)) trivial)
    · intro s e settled
      exact ⟨_, List.mem_append_right _ List.mem_cons_self, id⟩
  · exact spec_pure fun s settled => settled

theorem settled_emplaceNotFound :
    Spec (fun s => Settled 0 s.history) (emplaceNotFound env) (fun _ s => Settled 0 s.history)
      Escaped := by
  refine spec_bind spec_getConn_frame fun conn => ?_
  split
  · exact spec_pure fun s settled => settled
  · exact spec_bind settled_notFoundPage fun page => spec_modify fun s settled => settled

theorem settled_mhdQueue (what : Queued) :
    Spec (fun s => Settled 0 s.history) (mhdQueue env what)
      (fun result s => Settled (if result = .yes then 1 else 0) s.history) Escaped := by
  refine spec_bind (M := fun _ s => Settled (if env.accepts what then 1 else 0) s.history)
    (spec_emit fun s settled => ?_) fun _ => spec_pure fun s settled => ?_
  · have queued := settled.append (settled_singleton (.queue what (env.accepts what)) trivial)
    rw [Nat.zero_add] at queued
    exact queued
  · cases taken : env.accepts what with
    | true => simpa [taken] using settled
    | false => simpa [taken] using settled

theorem settled_decorate (r : HttpResponse) :
    Spec (fun s => Settled 0 s.history) (decorateMhdResponse env r) (fun _ s => Settled 0 s.history)
      Escaped := by
  refine spec_bind (M := fun _ s => ∃ t : Session, Settled 0 t.history ∧
    s.history = t.history ++ [.decorate r]) (spec_emit fun s settled => ⟨s, settled, rfl⟩)
    fun _ => ?_
  rcases r.setCookieLines_cases env.tmLeft with ⟨renderable, lines, rendered⟩ | ⟨unrenderable, e, failed⟩
  · rw [rendered]
    refine spec_pure fun s start => ?_
    obtain ⟨t, settled, whole⟩ := start
    rw [whole]
    exact settled.append (settled_singleton (.decorate r) renderable)
  · rw [failed]
    refine spec_throw fun s start => ?_
    obtain ⟨t, -, whole⟩ := start
    refine ⟨.decorate r, ?_, unrenderable⟩
    rw [whole]
    exact List.mem_append_right _ List.mem_cons_self

theorem settled_queueResponse (resource : Option Handler) :
    Spec (fun s => Settled 0 s.history) (materializeAndQueueResponse env resource)
      (fun result s => Settled (if result = .yes then 1 else 0) s.history) Escaped := by
  refine spec_bind (settled_calm (calm_rawOrForced500 env) (by decide) 0) fun raw => ?_
  cases raw with
  | false => exact spec_pure fun s settled => settled
  | true =>
    refine spec_bind spec_getConn_frame fun conn => ?_
    refine spec_bind (settled_decorate _) fun _ => ?_
    refine spec_bind (settled_mhdQueue _) fun result => ?_
    refine spec_bind (settled_calm (calm_fireResponseSentGated env resource) (by decide) _)
      fun _ => ?_
    exact spec_pure fun s settled => settled

theorem settled_tryWsUpgrade (w : WireRequest) :
    Spec (fun s => Settled 0 s.history) (tryWsUpgrade env w)
      (fun upgraded s => upgraded.elim (Settled 0 s.history) fun result =>
        Settled (if result = .yes then 1 else 0) s.history) Escaped := by
  refine spec_bind spec_getConn_frame fun conn => ?_
  split
  · exact spec_pure fun s settled => settled
  · exact spec_bind (settled_mhdQueue _) fun result => spec_pure fun s settled => settled

theorem settled_parts (w : WireRequest) :
    FinalizeProof env w (fun s => Settled 0 s.history) (fun s => Settled 0 s.history)
      (fun s => Settled 0 s.history)
      (fun result s => Settled (if result = .yes then 1 else 0) s.history) Escaped where
  upgrade := settled_tryWsUpgrade w
  resolve := settled_calm (calm_resolveResourceForRequest env) (by decide) 0
  stamp hrm := settled_calm (calm_stampResource env hrm) (by decide) 0
  resolved hrm := settled_calm (calm_fireRouteResolvedGated env hrm) (by decide) 0
  before hrm := by
    simpa using settled_calm (calm_fireBeforeHandlerGated env hrm) (by decide) 0
  dispatch hrm := settled_calm (calm_dispatchResourceHandler env hrm) (by decide) 0
  missing := settled_emplaceNotFound
  edited resource := settled_calm (calm_fireAfterHandlerGated env resource) (by decide) 0
  skipped _ settled := settled
  queue := settled_queueResponse

theorem settled_serve (w : WireRequest) :
    Spec (fun s => Settled 0 s.history ∧ s.conn.request = none) (serve env w)
      (fun result s => Settled (if result = .yes then 1 else 0) s.history) Escaped := by
  refine spec_serve env w (I := Settled 0) ?_ (spec_pre (settled_parts w).spec fun _ start => start.1)
  intro h new settled sound
  refine settled.append_unwatched fun e member watched => ?_
  have apart : ∀ k ∈ watchedKinds, k ∉ receivingKinds := by decide
  exact apart e.kind watched (sound e member)

end

/-- The last call returns, with one response or with `MHD_NO`, exactly when
    `not_found_handler` does not throw and every cookie that is rendered can be. -/
theorem contained_iff_harmless (env : Env) (w : WireRequest) :
    Contained env w ↔ ∀ e ∈ (after (serve env w) {}).history, e.Harmless := by
  have spec : Spec _ (serve env w) _ _ := settled_serve w
  have both := spec {} ⟨settled_nil, rfl⟩
  constructor
  · rintro ⟨result, returned, -⟩
    exact (both.1 result returned).1
  · intro harmless
    cases run : outcome (serve env w) {} with
    | error e =>
      obtain ⟨event, member, harmful⟩ := both.2 e run
      exact absurd (harmless event member) harmful
    | ok result =>
      refine ⟨result, run, ?_⟩
      have count := (both.1 result run).2
      cases result with
      | no => exact Or.inl rfl
      | yes => exact Or.inr count

def missingEnv : Env :=
  { Env.quiet { notFoundHandler := true } with
    answer := fun _ call => match call with
      | .notFoundHandler _ => .error .other
      | call => quietAnswer call }

def missingRequest : WireRequest := { plainRequest with url := "/b".toList }

def unnamedCookieEnv : Env :=
  { Env.quiet {} with
    answer := fun _ call => match call with
      | .render .. => .ok (okPage.withCookie {})
      | call => quietAnswer call }

/-- A `not_found_handler` that throws, and a resource whose response carries a
    default-constructed cookie. -/
theorem exceptions_escape :
    ¬Contained missingEnv missingRequest ∧ ¬Contained unnamedCookieEnv plainRequest := by
  have missing : outcome (serve missingEnv missingRequest) {} = .error .other := rfl
  have unnamed : outcome (serve unnamedCookieEnv plainRequest) {} =
      .error (.invalidArgument (CookieError.emptyName).message) := rfl
  constructor
  · rintro ⟨result, returned, -⟩
    rw [missing] at returned
    cases returned
  · rintro ⟨result, returned, -⟩
    rw [unnamed] at returned
    cases returned

end HttpServer
