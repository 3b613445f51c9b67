import HttpServer.ThrowingHooks

/-!
The order of what happens to a request. Every hook phase, the call of the
resource and the hand-over of the answer is a stage. The history never goes back
to an earlier stage; a response of a pre-handler hook leaves only what comes
with the answer and after it; the resource is called once and one answer is
queued, if at all. All three are facts about any event and any later one.
-/
namespace HttpServer
open Effect

/-- The handler stage is the resource's render method, or
    `method_not_allowed_handler` in its place. -/
inductive Stage where
  | requestReceived | bodyChunk | routeResolved | beforeHandler | handler | handlerException
  | afterHandler | queued | responseSent | requestCompleted
  deriving DecidableEq, Repr

def Stage.rank : Stage → Nat
  | .requestReceived => 0
  | .bodyChunk => 1
  | .routeResolved => 2
  | .beforeHandler => 3
  | .handler => 4
  | .handlerException => 5
  | .afterHandler => 6
  | .queued => 7
  | .responseSent => 8
  | .requestCompleted => 9

/-- The slots of `internal_error_handler` and `log_access` belong to the phases
    they are fired with. -/
def EventKind.stage : EventKind → Option Stage
  | .hook .requestReceived => some .requestReceived
  | .hook .bodyChunk => some .bodyChunk
  | .hook .routeResolved => some .routeResolved
  | .hook .beforeHandler => some .beforeHandler
  | .render => some .handler
  | .methodNotAllowedHandler .errorPage => some .handler
  | .hook .handlerException => some .handlerException
  | .internalErrorHandler .hookAlias => some .handlerException
  | .hook .afterHandler => some .afterHandler
  | .queue => some .queued
  | .hook .responseSent => some .responseSent
  | .logAccess => some .responseSent
  | .hook .requestCompleted => some .requestCompleted
  | _ => none

def onceKinds : List EventKind := [.render, .queue]

structure Event.Precedes (e e' : Event) : Prop where
  ordered : ∀ a ∈ e.kind.stage, ∀ b ∈ e'.kind.stage, a.rank ≤ b.rank
  final : e.hookAnswered = true → ∀ b ∈ e'.kind.stage, Stage.queued.rank ≤ b.rank
  once : e.kind ∈ onceKinds → e'.kind ≠ e.kind

def Unrefused (h : History) : Prop := ∀ e ∈ h, e.hookAnswered = false

structure Upto (n : Stage) (h : History) : Prop where
  sound : h.Pairwise Event.Precedes
  reached : ∀ e ∈ h, ∀ a ∈ e.kind.stage, a.rank ≤ n.rank

structure OpenTo (n : Stage) (h : History) : Prop extends Upto n h where
  unrefused : Unrefused h

abbrev EventKind.During (k : EventKind) (m : Stage) : Prop :=
  (∀ a ∈ k.stage, a = m) ∧ k ∉ onceKinds

abbrev EventKind.Late (k : EventKind) : Prop := ∀ a ∈ k.stage, Stage.queued.rank ≤ a.rank

variable {m n : Stage} {h : History}

theorem Event.precedes_during {e e' : Event} (reached : ∀ a ∈ e.kind.stage, a.rank ≤ m.rank)
    (during : e'.kind.During m) (allowed : e.hookAnswered = false ∨ e'.kind.Late) :
    e.Precedes e' where
  ordered a staged b staged' := by
    rw [during.1 b staged']
    exact reached a staged
  final answered := by
    rcases allowed with passes | late
    · rw [answered] at passes
      cases passes
    · exact late
  once single same := during.2 (same ▸ single)

theorem Upto.mono (upto : Upto n h) (le : n.rank ≤ m.rank) : Upto m h :=
  ⟨upto.sound, fun e listed a staged => (upto.reached e listed a staged).trans le⟩

theorem OpenTo.mono (open_ : OpenTo n h) (le : n.rank ≤ m.rank) : OpenTo m h :=
  ⟨open_.toUpto.mono le, open_.unrefused⟩

theorem Unrefused.append {new : History} (unrefused : Unrefused h) (more : Unrefused new) :
    Unrefused (h ++ new) := by
  intro e listed
  rcases List.mem_append.mp listed with old | late
  · exact unrefused e old
  · exact more e late

section
variable {n m : Stage} {h new : History}

theorem Upto.append (upto : Upto n h) (le : n.rank ≤ m.rank) (during : ∀ e ∈ new, e.kind.During m)
    (allowed : Unrefused h ∨ ∀ e ∈ new, e.kind.Late) (among : new.Pairwise Event.Precedes) :
    Upto m (h ++ new) where
  sound := by
    refine List.pairwise_append.mpr ⟨upto.sound, among, fun e old e' late => ?_⟩
    exact Event.precedes_during ((upto.mono le).reached e old) (during e' late)
      (allowed.imp (fun unrefused => unrefused e old) fun later => later e' late)
  reached e listed a staged := by
    rcases List.mem_append.mp listed with old | late
    · exact (upto.mono le).reached e old a staged
    · exact ((during e late).1 a staged ▸ le_rfl)

theorem pairwise_during (during : ∀ e ∈ new, e.kind.During m) (passes : Unrefused new) :
    new.Pairwise Event.Precedes :=
  List.pairwise_of_forall_mem_list fun e listed e' listed' =>
    Event.precedes_during (fun a staged => (during e listed).1 a staged ▸ le_rfl) (during e' listed')
      (Or.inl (passes e listed))

theorem OpenTo.append (open_ : OpenTo n h) (le : n.rank ≤ m.rank) (during : ∀ e ∈ new, e.kind.During m)
    (passes : Unrefused new) : OpenTo m (h ++ new) :=
  ⟨open_.toUpto.append le during (Or.inl open_.unrefused) (pairwise_during during passes),
    open_.unrefused.append passes⟩

theorem Upto.next {e : Event} (upto : Upto n h) (staged : e.kind.stage = some m)
    (fresh : n.rank < m.rank) (allowed : Unrefused h ∨ e.kind.Late) : Upto m (h ++ [e]) where
  sound := by
    refine List.pairwise_append.mpr ⟨upto.sound, List.pairwise_singleton _ _, ?_⟩
    intro e' old e'' last
    rw [List.mem_singleton.mp last]
    refine ⟨fun b staged' c staged'' => ?_, fun answered => ?_, fun _ same => ?_⟩
    · rw [staged] at staged''
      rw [← Option.some.inj staged'']
      exact (upto.reached e' old b staged').trans fresh.le
    · rcases allowed with unrefused | late
      · rw [unrefused e' old] at answered
        cases answered
      · exact late
    · rw [same] at staged
      exact absurd (upto.reached e' old m staged) (Nat.not_le.mpr fresh)
  reached e' listed b staged' := by
    rcases List.mem_append.mp listed with old | last
    · exact (upto.reached e' old b staged').trans fresh.le
    · rw [List.mem_singleton.mp last, staged] at staged'
      rw [← Option.some.inj staged']

end

section
variable {α γ : Type} {view : Conn → γ} {kinds : EventKind → Prop} {x : DispatchM α} {n m : Stage}
  {E : Exc → Session → Prop}

end

section
variable (env : Env)

end
end HttpServer
