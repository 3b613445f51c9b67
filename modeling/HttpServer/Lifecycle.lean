import HttpServer.ExceptionPrivacy
import HttpServer.LifecycleOrder
import HttpServer.RegisteredPhases

/-!
The life of a request that the WebSocket check does not answer: what happens, in
which order, how often, and what happens whenever somebody is registered for it.
Each part is a fact about the history that is carried through the receiving
calls, through `finalize_answer` and through the completion callback.
-/
namespace HttpServer
open Effect

def Env.routed (env : Env) (w : WireRequest) : Option Handler :=
  (env.routes.lookupV2 env.rx env.cache (resolveMethodCallback w.method).1
    (w.dispatched env.config)).2.map fun result => result.entry.handler

/-- The resource that the last two phases are fired for: none after the answer of a
    receiving phase, which goes to the queue without routing. -/
def Env.handed (env : Env) (w : WireRequest) (h : History) : Option Handler :=
  if h.all fun e => e.preAnswer.isNone then env.routed w else none

def ResolvedOnce (env : Env) (h : History) : Prop :=
  ∃ before later, h = before ++ later ∧
    (invocations .routeResolved h).map Prod.fst = (env.hooksAt before).serverLinks .routeResolved

def Event.handlerThrew (e : Event) : Bool := e.renderThrew || e.refusalThrew

section
variable {env : Env} {phase : HookPhase} {P : Session → Prop} {E : Exc → Session → Prop}
  {w : WireRequest}

variable {h new : History} {α γ : Type} {view : Conn → γ} {kinds : EventKind → Prop}
  {x : DispatchM α}

theorem Unrefused.unanswered (unrefused : Unrefused h) : Unanswered h := by
  intro e listed
  have passes := unrefused e listed
  unfold Event.preAnswer
  split
  · rename_i call r
    refine if_neg fun early => ?_
    have wider : ∀ phase ∈ receivingPhases, phase ∈ preHandlerPhases := by decide
    simp [Event.hookAnswered, wider _ early] at passes
  · rfl

theorem ResolvedOnce.append (resolved : ResolvedOnce env h)
    (quiet : invocations .routeResolved new = []) : ResolvedOnce env (h ++ new) := by
  obtain ⟨before, later, rfl, same⟩ := resolved
  refine ⟨before, later ++ new, List.append_assoc .., ?_⟩
  rw [invocations_append, quiet, List.append_nil, same]

def HitOnly (env : Env) (w : WireRequest) (h : History) : Prop :=
  (∃ e ∈ h, e.kind ∈ [.hook .beforeHandler, .render]) → (env.routed w).isSome

theorem HitOnly.append (hit : HitOnly env w h)
    (other : ∀ e ∈ new, e.kind ∉ [.hook .beforeHandler, .render]) : HitOnly env w (h ++ new) := by
  rintro ⟨e, listed, watched⟩
  rcases List.mem_append.mp listed with old | late
  · exact hit ⟨e, old, watched⟩
  · exact absurd watched (other e late)

def HandlerThrew (h : History) : Prop := ∃ e ∈ h, e.handlerThrew = true

def ExceptedOnly (h : History) : Prop :=
  (∃ e ∈ h, e.kind.stage = some .handlerException) → HandlerThrew h

theorem HandlerThrew.append (threw : HandlerThrew h) (new : History) : HandlerThrew (h ++ new) := by
  obtain ⟨e, listed, thrown⟩ := threw
  exact ⟨e, List.mem_append_left new listed, thrown⟩

theorem ExceptedOnly.append (excepted : ExceptedOnly h)
    (other : ∀ e ∈ new, e.kind.stage ≠ some .handlerException) : ExceptedOnly (h ++ new) := by
  rintro ⟨e, listed, staged⟩
  rcases List.mem_append.mp listed with old | late
  · exact (excepted ⟨e, old, staged⟩).append new
  · exact absurd staged (other e late)

structure QueuedAnnounced (env : Env) (resource : Option Handler) (h : History) : Prop where
  queued : HttpResponse.empty500.materializes env.creates = true →
    ∃ what, h.filterMap Event.queued = [what]
  sent : h.filterMap Event.queued ≠ [] → Registered env resource .responseSent →
    Occurs .responseSent h

theorem QueuedAnnounced.mono {resource other : Option Handler}
    (announced : QueuedAnnounced env resource h)
    (fewer : Registered env other .responseSent → Registered env resource .responseSent) :
    QueuedAnnounced env other h :=
  ⟨announced.queued, fun some_ registered => announced.sent some_ (fewer registered)⟩

theorem QueuedAnnounced.append {resource : Option Handler}
    (announced : QueuedAnnounced env resource h) (quiet : ∀ e ∈ new, e.kind ≠ .queue) :
    QueuedAnnounced env resource (h ++ new) := by
  have same := @filterMap_queued_append h new quiet
  refine ⟨fun creates => ?_, fun some_ registered => ?_⟩
  · rw [same]
    exact announced.queued creates
  · rw [same] at some_
    exact (announced.sent some_ registered).append new

end

section
variable {env : Env} {w : WireRequest} {succeeded : Bool}

variable (declined : upgradeAnswer env w (w.dispatched env.config) = none)
include declined

end

end HttpServer
