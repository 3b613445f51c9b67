import HttpServer.HookChains
import HttpServer.PhaseRules

/-!
Phases that are sure to find a hook. Hooks may come and go at any moment, and a
gate, the list behind it and the list of a resource are read one after the other.
A phase that is fired calls a hook if one is registered at every moment,
server-wide or at the resource.
-/
namespace HttpServer
open Effect

def Occurs (phase : HookPhase) (h : History) : Prop := ∃ e ∈ h, e.kind = .hook phase

/-- At every moment a hook of the phase is there, server-wide or at the resource. -/
def Registered (env : Env) (resource : Option Handler) (phase : HookPhase) : Prop :=
  (∀ h, (env.hooksAt h).serverLinks phase ≠ []) ∨
    ∃ hrm, resource = some hrm ∧ ∀ h, (env.hooksAt h).routeLinks hrm phase ≠ []

theorem Occurs.append {phase : HookPhase} {h : History} (occurs : Occurs phase h)
    (new : History) : Occurs phase (h ++ new) := by
  obtain ⟨e, listed, kind⟩ := occurs
  exact ⟨e, List.mem_append_left new listed, kind⟩

section
variable {env : Env} {phase : HookPhase} {P : Session → Prop} {E : Exc → Session → Prop}
  {hrm : Handler} {α : Type} {ctx : Conn → HookCtx} {x : DispatchM α} {γ : Type} {view : Conn → γ}
  {kinds : EventKind → Prop} {fns : List HookFn} {resource : Option Handler}

theorem Registered.server (registered : Registered env none phase) (h : History) :
    (env.hooksAt h).serverLinks phase ≠ [] := by
  rcases registered with always | ⟨hrm, none_, -⟩
  · exact always h
  · cases none_

/-- What the completion callback knows of the matched resource. -/
def Conn.mark (c : Conn) : Option Handler × Bool := (c.resourceWeak, c.routeHasHookTable)

end
end HttpServer
