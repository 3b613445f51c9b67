import HttpServer.Lib.Effect

/-!
Programs with a log beside their state. `Follows` says that such a program is
another one with entries written on the way: both leave the same state, return
related values and throw the same errors, and whatever is logged, also before a
throw, satisfies a given predicate. `forLoop` is the counting loop of an
indexed collection whose size is read before each round.
-/
namespace Logged
open Effect
variable {ε σ ω α β γ δ : Type}

abbrev LogM (ε σ ω : Type) := EStateM ε (σ × List ω)

def record (entry : ω) : LogM ε σ ω Unit := modify fun s => (s.1, s.2 ++ [entry])

def silent (x : EStateM ε σ α) : LogM ε σ ω α := fun s =>
  match x s.1 with
  | .ok a t => .ok a (t, s.2)
  | .error e t => .error e (t, s.2)

inductive Agree (E : ε → Prop) (R : β → α → Prop) : Except ε β → Except ε α → Prop
  | ok {b : β} {a : α} (related : R b a) : Agree E R (.ok b) (.ok a)
  | error {e : ε} (admitted : E e) : Agree E R (.error e) (.error e)

def Follows (p : ω → Prop) (E : ε → Prop) (R : β → α → Prop) (y : LogM ε σ ω β)
    (x : EStateM ε σ α) : Prop :=
  ∀ s log, ∃ new, (∀ entry ∈ new, p entry) ∧ after y (s, log) = (after x s, log ++ new) ∧
    Agree E R (outcome y (s, log)) (outcome x s)

section
variable {p : ω → Prop} {E : ε → Prop} {R : β → α → Prop} {Q : δ → γ → Prop} {y : LogM ε σ ω β}
  {x : EStateM ε σ α}

theorem follows_of_quiet (quiet : ∀ s log, after y (s, log) = (after x s, log))
    (agree : ∀ s log, Agree E R (outcome y (s, log)) (outcome x s)) : Follows p E R y x := by
  intro s log
  refine ⟨[], fun entry listed => ?_, ?_, agree s log⟩
  · cases listed
  · rw [quiet, List.append_nil]

theorem follows_pure {b : β} {a : α} (related : R b a) :
    Follows p E R (pure b : LogM ε σ ω β) (pure a : EStateM ε σ α) :=
  follows_of_quiet (fun _ _ => rfl) fun _ _ => .ok related

theorem follows_throw {e : ε} (admitted : E e) :
    Follows p E R (throw e : LogM ε σ ω β) (throw e : EStateM ε σ α) :=
  follows_of_quiet (fun _ _ => rfl) fun _ _ => .error admitted

theorem follows_silent (admitted : ∀ s e, outcome x s = .error e → E e) :
    Follows p E Eq (silent x : LogM ε σ ω α) x := by
  refine follows_of_quiet (fun s log => ?_) fun s log => ?_
  · simp only [after, silent]
    cases x s with
    | ok a t => rfl
    | error e t => rfl
  · have raised := admitted s
    simp only [outcome, silent] at raised ⊢
    cases run : x s with
    | ok a t => exact .ok rfl
    | error e t => exact .error (raised e (by rw [run]))

theorem follows_record {entry : ω} (fine : p entry) (rest : Follows p E R y x) :
    Follows p E R (record entry >>= fun _ => y) x := by
  intro s log
  obtain ⟨new, sound, state, agree⟩ := rest s (log ++ [entry])
  refine ⟨entry :: new, ?_, ?_, agree⟩
  · intro other listed
    rcases List.mem_cons.mp listed with rfl | later
    · exact fine
    · exact sound other later
  · rw [List.append_assoc, List.singleton_append] at state
    exact state

theorem follows_bind {y : LogM ε σ ω β} {x : EStateM ε σ α} {g : β → LogM ε σ ω δ}
    {f : α → EStateM ε σ γ} (first : Follows p E R y x)
    (rest : ∀ b a, R b a → Follows p E Q (g b) (f a)) : Follows p E Q (y >>= g) (x >>= f) := by
  intro s log
  obtain ⟨new, sound, state, agree⟩ := first s log
  generalize began : outcome y (s, log) = left at agree
  generalize ended : outcome x s = right at agree
  cases agree with
  | error admitted =>
    obtain ⟨leftStop, leftState⟩ := bind_of_error (s, log) (f := g) began
    obtain ⟨rightStop, rightState⟩ := bind_of_error s (f := f) ended
    refine ⟨new, sound, ?_, ?_⟩
    · rw [leftState, rightState, state]
    · rw [leftStop, rightStop]
      exact .error admitted
  | ok related =>
    obtain ⟨leftRun, leftState⟩ := bind_of_ok (s, log) (f := g) began
    obtain ⟨rightRun, rightState⟩ := bind_of_ok s (f := f) ended
    obtain ⟨more, later, final, result⟩ := rest _ _ related (after x s) (log ++ new)
    refine ⟨new ++ more, ?_, ?_, ?_⟩
    · intro entry listed
      rcases List.mem_append.mp listed with early | late
      · exact sound entry early
      · exact later entry late
    · rw [leftState, rightState, state, final, List.append_assoc]
    · rw [leftRun, rightRun, state]
      exact result

theorem follows_ite {c : Prop} [Decidable c] {y' : LogM ε σ ω β} {x' : EStateM ε σ α}
    (yes : c → Follows p E R y x) (no : ¬c → Follows p E R y' x') :
    Follows p E R (if c then y else y') (if c then x else x') := by
  split
  · rename_i holds
    exact yes holds
  · rename_i fails
    exact no fails

theorem follows_outcome {K : α → Prop} (follows : Follows p E R y x)
    (known : ∀ s a, outcome x s = .ok a → K a) : Follows p E (fun b a => R b a ∧ K a) y x := by
  intro s log
  obtain ⟨new, sound, state, agree⟩ := follows s log
  refine ⟨new, sound, state, ?_⟩
  have returned := known s
  generalize outcome y (s, log) = left at agree ⊢
  generalize outcome x s = right at agree returned ⊢
  cases agree with
  | ok related => exact .ok ⟨related, returned _ rfl⟩
  | error admitted => exact .error admitted

theorem follows_bind_pure {a : α} {g : β → LogM ε σ ω δ} {x : EStateM ε σ γ}
    (first : Follows p E R y (pure a : EStateM ε σ α)) (rest : ∀ b, R b a → Follows p E Q (g b) x) :
    Follows p E Q (y >>= g) x := by
  have returned : ∀ s c, outcome (pure a : EStateM ε σ α) s = .ok c → c = a := by
    rintro s c ⟨⟩
    rfl
  apply @follows_bind _ _ _ _ _ _ _ p E _ Q _ _ g (fun _ => x) (follows_outcome first returned)
  rintro b c ⟨related, rfl⟩
  exact rest b related

end

def forLoop (size : β → Nat) (body : Nat → β → EStateM ε σ β) : Nat → Nat → β → EStateM ε σ β
  | 0, _, b => pure b
  | fuel + 1, i, b =>
    if i < size b then do
      let b ← body i b
      forLoop size body fuel (i + 1) b
    else pure b

end Logged
