import HttpServer.LenientHooks
import HttpServer.PhaseRules

/-!
Hooks that throw before the handler. The firing loops log the exception and go
on as if the hook had passed: the request ends as on the server whose hooks pass
there, and is not turned away on the path of a throwing handler.
-/
namespace HttpServer
open Effect

def Event.hookThrew : Event → Bool
  | .hook call (.threw _) => call.ctx.phase ∈ preHandlerPhases
  | _ => false

def Event.hookAnswered : Event → Bool
  | .hook call (.respond _) => call.ctx.phase ∈ preHandlerPhases
  | _ => false

def ThrowsUnanswered (h : History) : Prop :=
  ∃ before e later, h = before ++ e :: later ∧ e.hookThrew = true ∧
    ∀ e' ∈ before, e'.hookAnswered = false

/-- The resource is not called, and the request goes through
    `handle_dispatch_exception`, which supplies the response. -/
def FailsClosed (h : History) : Prop :=
  (∀ e ∈ h, e.kind ≠ .render) ∧ ∃ e ∈ h, e.kind = .dispatchException

def Event.refusalThrew : Event → Bool
  | .called (.methodNotAllowedHandler .errorPage _) (.error _) => true
  | _ => false

def throwingEnv : Env :=
  { Env.quiet { logError := true } with
    hooksAt := fun _ =>
      (HookState.constructed {}).step (.addHook .beforeHandler .beforeHandler (some 1) 0)
    runHook := fun _ _ => .threw .other }

theorem throwing_hook_reaches_the_resource :
    ThrowsUnanswered (after (serve throwingEnv plainRequest) {}).history ∧
      ¬FailsClosed (after (serve throwingEnv plainRequest) {}).history := by
  constructor
  · exact ⟨(after (serve throwingEnv plainRequest) {}).history.take 8, _,
      (after (serve throwingEnv plainRequest) {}).history.drop 9, rfl, rfl, by decide⟩
  · rintro ⟨unrendered, -⟩
    have rendered : EventKind.render ∈
        (after (serve throwingEnv plainRequest) {}).history.map Event.kind := by decide
    obtain ⟨e, member, render⟩ := List.mem_map.mp rendered
    exact unrendered e member render

theorem alike_start (env : Env) {R : History → History → Prop} (same : R [] []) :
    Alike env R {} {} := by
  refine ⟨rfl, same, fun _ before call e later whole => ?_⟩
  cases (List.append_eq_nil_iff.mp whole.symm).2

/-- A hook that throws is logged, and the request goes on and ends as it does on the
    server whose pre-handler hooks pass where these throw. -/
theorem throwing_hook_logged_and_passed (env : Env) (w : WireRequest) :
    ThrowsLogged env (after (serve env w) {}).history ∧
      (Oblivious env → outcome (serve env w) {} = outcome (serve env.lenient w) {} ∧
        (after (serve env w) {}).conn = (after (serve env.lenient w) {}).conn ∧
        plain (after (serve env w) {}).history = plain (after (serve env.lenient w) {}).history) := by
  refine ⟨?_, fun oblivious => ?_⟩
  · exact ((Companion.self env).serve w _ _ (alike_start env rfl)).2.logged
  · obtain ⟨same, alike⟩ := oblivious.companion.serve w _ _ (alike_start env rfl)
    exact ⟨same, alike.conn, alike.history⟩

theorem throwing_before_handler_passed :
    (after (serve throwingEnv plainRequest) {}).history.any Event.hookThrew = true ∧
      ThrowsLogged throwingEnv (after (serve throwingEnv plainRequest) {}).history ∧
      plain (after (serve throwingEnv plainRequest) {}).history =
        plain (after (serve throwingEnv.lenient plainRequest) {}).history := by
  have result := throwing_hook_logged_and_passed throwingEnv plainRequest
  have oblivious : Oblivious throwingEnv := by
    constructor <;> intro _ _ _ <;> rfl
  exact ⟨by decide, result.1, (result.2 oblivious).2.2⟩

end HttpServer
