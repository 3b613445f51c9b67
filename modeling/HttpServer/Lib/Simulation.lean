import HttpServer.Lib.Effect

/-!
Two programs side by side. `Simulates P Q x y` says that `x` and `y`, started in
states that `P` relates, come to the same outcome in states that `Q` relates,
whether they return or throw. The rules go along the programs: what a part has
returned is the same on both sides, so the parts behind it may depend on it.
-/
namespace Effect
variable {ε σ τ α β : Type} {P Q R : σ → τ → Prop}

def Simulates (P Q : σ → τ → Prop) (x : EStateM ε σ α) (y : EStateM ε τ α) : Prop :=
  ∀ s t, P s t → outcome x s = outcome y t ∧ Q (after x s) (after y t)

theorem simulates_pure {a : α} (holds : ∀ s t, P s t → Q s t) :
    Simulates P Q (pure a : EStateM ε σ α) (pure a) :=
  fun s t start => ⟨rfl, holds s t start⟩

theorem simulates_throw {e : ε} (holds : ∀ s t, P s t → Q s t) :
    Simulates P Q (throw e : EStateM ε σ α) (throw e) :=
  fun s t start => ⟨rfl, holds s t start⟩

theorem simulates_modify {f : σ → σ} {g : τ → τ} (holds : ∀ s t, P s t → Q (f s) (g t)) :
    Simulates P Q (modify f : EStateM ε σ PUnit) (modify g) :=
  fun s t start => ⟨rfl, holds s t start⟩

variable {x : EStateM ε σ α} {y : EStateM ε τ α}

theorem simulates_pre (weak : Simulates R Q x y) (holds : ∀ s t, P s t → R s t) :
    Simulates P Q x y :=
  fun s t start => weak s t (holds s t start)

theorem simulates_bind {f : α → EStateM ε σ β} {g : α → EStateM ε τ β} (first : Simulates P R x y)
    (rest : ∀ a, Simulates R Q (f a) (g a)) (raised : ∀ s t, R s t → Q s t) :
    Simulates P Q (x >>= f) (y >>= g) := by
  intro s t start
  obtain ⟨same, related⟩ := first s t start
  cases ended : outcome x s with
  | ok a =>
    obtain ⟨left, leftState⟩ := bind_of_ok s (f := f) ended
    obtain ⟨right, rightState⟩ := bind_of_ok t (f := g) (same.symm.trans ended)
    rw [left, right, leftState, rightState]
    exact rest a _ _ related
  | error e =>
    obtain ⟨left, leftState⟩ := bind_of_error s (f := f) ended
    obtain ⟨right, rightState⟩ := bind_of_error t (f := g) (same.symm.trans ended)
    rw [left, right, leftState, rightState]
    exact ⟨rfl, raised _ _ related⟩

theorem simulates_tryCatch {h : ε → EStateM ε σ α} {k : ε → EStateM ε τ α}
    (body : Simulates P R x y) (handler : ∀ e, Simulates R Q (h e) (k e))
    (returned : ∀ s t, R s t → Q s t) : Simulates P Q (tryCatch x h) (tryCatch y k) := by
  intro s t start
  obtain ⟨same, related⟩ := body s t start
  rcases tryCatch_cases s x h with ⟨a, ended, left, leftState⟩ | ⟨e, ended, left, leftState⟩
  · rcases tryCatch_cases t y k with ⟨b, ran, right, rightState⟩ | ⟨e, ran, -, -⟩
    · rw [left, right, leftState, rightState, ← ended, ← ran]
      exact ⟨same, returned _ _ related⟩
    · rw [ended, ran] at same
      cases same
  · rcases tryCatch_cases t y k with ⟨b, ran, -, -⟩ | ⟨e', ran, right, rightState⟩
    · rw [ended, ran] at same
      cases same
    · rw [ended, ran] at same
      cases same
      rw [left, right, leftState, rightState]
      exact handler e _ _ related

theorem simulates_attempt (body : Simulates P Q x y) : Simulates P Q (attempt x) (attempt y) := by
  intro s t start
  obtain ⟨same, related⟩ := body s t start
  exact ⟨congrArg Except.ok same, related⟩

end Effect
