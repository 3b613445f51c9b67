import Mathlib.Order.Defs.Unbundled

/-!
Rules for stateful programs that may throw and keep their state when they do.
`outcome` and `after` are the two halves of a run. `Steps` bounds what a
program does to the state by a reflexive, transitive relation, whether it
returns or throws; `FailsClean` bounds it on the failing runs only, up to a set
of excused errors; `Spec` says what holds when it returns and when it throws,
`Ensures` only the former; `Returns` says that it does not throw; `success` is
the run as a partial function.
-/
namespace Effect
variable {ε σ α β : Type}

def outcome (x : EStateM ε σ α) (s : σ) : Except ε α :=
  match x s with
  | .ok a _ => .ok a
  | .error e _ => .error e

def after (x : EStateM ε σ α) (s : σ) : σ :=
  match x s with
  | .ok _ t => t
  | .error _ t => t

def attempt (x : EStateM ε σ α) : EStateM ε σ (Except ε α) := fun s => .ok (outcome x s) (after x s)

section
variable (s : σ)

theorem outcome_get_bind (f : σ → EStateM ε σ α) :
    outcome (get >>= f) s = outcome (f s) s := rfl
theorem outcome_set_bind (t : σ) (f : PUnit → EStateM ε σ α) :
    outcome (set t >>= f) s = outcome (f ⟨⟩) t := rfl
theorem after_get_bind (f : σ → EStateM ε σ α) : after (get >>= f) s = after (f s) s := rfl
theorem after_set_bind (t : σ) (f : PUnit → EStateM ε σ α) :
    after (set t >>= f) s = after (f ⟨⟩) t := rfl

theorem outcome_attempt_bind (x : EStateM ε σ α) (f : Except ε α → EStateM ε σ β) :
    outcome (attempt x >>= f) s = outcome (f (outcome x s)) (after x s) := rfl
theorem after_attempt_bind (x : EStateM ε σ α) (f : Except ε α → EStateM ε σ β) :
    after (attempt x >>= f) s = after (f (outcome x s)) (after x s) := rfl

theorem bind_cases (x : EStateM ε σ α) (f : α → EStateM ε σ β) :
    (∃ e, outcome x s = .error e ∧ outcome (x >>= f) s = .error e ∧
        after (x >>= f) s = after x s) ∨
      (∃ a, outcome x s = .ok a ∧ outcome (x >>= f) s = outcome (f a) (after x s) ∧
        after (x >>= f) s = after (f a) (after x s)) := by
  cases run : x s with
  | ok a t =>
    refine Or.inr ⟨a, ?_, ?_, ?_⟩ <;> simp [outcome, after, bind, EStateM.bind, run]
  | error e t =>
    refine Or.inl ⟨e, ?_, ?_, ?_⟩ <;> simp [outcome, after, bind, EStateM.bind, run]

variable {x : EStateM ε σ α} {f : α → EStateM ε σ β}

theorem bind_ok {b : β} (ok : outcome (x >>= f) s = .ok b) :
    ∃ a, outcome x s = .ok a ∧ outcome (f a) (after x s) = .ok b ∧
      after (x >>= f) s = after (f a) (after x s) := by
  rcases bind_cases s x f with ⟨e, -, failed, -⟩ | ⟨a, first, result, state⟩
  · rw [failed] at ok
    cases ok
  · exact ⟨a, first, result ▸ ok, state⟩

theorem bind_of_ok {a : α} (first : outcome x s = .ok a) :
    outcome (x >>= f) s = outcome (f a) (after x s) ∧
      after (x >>= f) s = after (f a) (after x s) := by
  rcases bind_cases s x f with ⟨e, stop, -, -⟩ | ⟨b, middle, result, state⟩
  · rw [first] at stop
    cases stop
  · rw [first] at middle
    cases middle
    exact ⟨result, state⟩

theorem bind_of_error {e : ε} (first : outcome x s = .error e) :
    outcome (x >>= f) s = .error e ∧ after (x >>= f) s = after x s := by
  rcases bind_cases s x f with ⟨e', stop, result, state⟩ | ⟨b, middle, -, -⟩
  · rw [first] at stop
    cases stop
    exact ⟨result, state⟩
  · rw [first] at middle
    cases middle

theorem tryCatch_apply (x : EStateM ε σ α) (h : ε → EStateM ε σ α) :
    tryCatch x h s = match x s with
      | .ok a t => .ok a t
      | .error e t => h e t := by
  change EStateM.tryCatch x h s = _
  delta EStateM.tryCatch
  dsimp only
  cases x s with
  | ok a t => rfl
  | error e t => rfl

theorem tryCatch_cases (x : EStateM ε σ α) (h : ε → EStateM ε σ α) :
    (∃ a, outcome x s = .ok a ∧ outcome (tryCatch x h) s = .ok a ∧
        after (tryCatch x h) s = after x s) ∨
      (∃ e, outcome x s = .error e ∧ outcome (tryCatch x h) s = outcome (h e) (after x s) ∧
        after (tryCatch x h) s = after (h e) (after x s)) := by
  have applied := tryCatch_apply s x h
  cases run : x s with
  | ok a t =>
    rw [run] at applied
    refine Or.inl ⟨a, ?_, ?_, ?_⟩ <;> simp [outcome, after, applied, run]
  | error e t =>
    rw [run] at applied
    refine Or.inr ⟨e, ?_, ?_, ?_⟩ <;> simp [outcome, after, applied, run]

end

def Steps (R : σ → σ → Prop) (x : EStateM ε σ α) : Prop := ∀ s, R s (after x s)

section
variable {R : σ → σ → Prop} [Std.Refl R]

theorem steps_of_after_eq {x : EStateM ε σ α} (same : ∀ s, after x s = s) : Steps R x := by
  intro s
  rw [same s]
  exact refl_of R s

theorem steps_pure (a : α) : Steps R (pure a : EStateM ε σ α) := steps_of_after_eq fun _ => rfl

theorem steps_throw (e : ε) : Steps R (throw e : EStateM ε σ α) := steps_of_after_eq fun _ => rfl

theorem steps_get : Steps R (get : EStateM ε σ σ) := steps_of_after_eq fun _ => rfl

end

variable {x : EStateM ε σ α} {R : σ → σ → Prop} {f : α → EStateM ε σ β} {h : ε → EStateM ε σ α}
  {P : σ → Prop} {E : ε → σ → Prop}

theorem steps_bind [IsTrans σ R] (first : Steps R x) (rest : ∀ a, Steps R (f a)) :
    Steps R (x >>= f) := by
  intro s
  rcases bind_cases s x f with ⟨e, -, -, state⟩ | ⟨a, -, -, state⟩
  · rw [state]
    exact first s
  · rw [state]
    exact trans_of R (first s) (rest a _)

theorem steps_attempt (body : Steps R x) : Steps R (attempt x) := body

theorem steps_tryCatch [IsTrans σ R] (body : Steps R x) (handler : ∀ e, Steps R (h e)) :
    Steps R (tryCatch x h) := by
  intro s
  rcases tryCatch_cases s x h with ⟨a, -, -, state⟩ | ⟨e, -, -, state⟩
  · rw [state]
    exact body s
  · rw [state]
    exact trans_of R (body s) (handler e _)

def FailsClean (R : σ → σ → Prop) (excused : ε → Prop) (x : EStateM ε σ α) : Prop :=
  ∀ s e, outcome x s = .error e → excused e ∨ R s (after x s)

section
variable {R : σ → σ → Prop} {excused : ε → Prop}

theorem failsClean_of_steps {x : EStateM ε σ α} (steps : Steps R x) : FailsClean R excused x := by
  intro s e _
  exact Or.inr (steps s)

/-- Check first, act last: checks that stay within `R` followed by a program
    that fails cleanly fail cleanly. -/
theorem failsClean_bind [IsTrans σ R] {x : EStateM ε σ α} {f : α → EStateM ε σ β}
    (check : Steps R x) (act : ∀ a, FailsClean R excused (f a)) :
    FailsClean R excused (x >>= f) := by
  intro s e failed
  rcases bind_cases s x f with ⟨e', -, -, state⟩ | ⟨a, -, result, state⟩
  · rw [state]
    exact Or.inr (check s)
  · rw [state]
    rw [result] at failed
    rcases act a _ e failed with excuse | clean
    · exact Or.inl excuse
    · exact Or.inr (trans_of R (check s) clean)

end

def Spec (P : σ → Prop) (x : EStateM ε σ α) (Q : α → σ → Prop) (E : ε → σ → Prop) : Prop :=
  ∀ s, P s → (∀ a, outcome x s = .ok a → Q a (after x s)) ∧
    ∀ e, outcome x s = .error e → E e (after x s)

section
variable {P : σ → Prop} {Q : α → σ → Prop} {E : ε → σ → Prop}

theorem spec_pure {a : α} (holds : ∀ s, P s → Q a s) : Spec P (pure a) Q E := by
  intro s start
  refine ⟨fun b run => ?_, fun e run => ?_⟩
  · cases run
    exact holds s start
  · cases run

theorem spec_throw {e : ε} (holds : ∀ s, P s → E e s) : Spec P (throw e) Q E := by
  intro s start
  refine ⟨fun b run => ?_, fun e run => ?_⟩
  · cases run
  · cases run
    exact holds s start

theorem spec_get {Q : σ → σ → Prop} (holds : ∀ s, P s → Q s s) : Spec P get Q E := by
  intro s start
  refine ⟨fun b run => ?_, fun e run => ?_⟩
  · cases run
    exact holds s start
  · cases run

theorem spec_modify {f : σ → σ} {Q : PUnit → σ → Prop} (holds : ∀ s, P s → Q ⟨⟩ (f s)) :
    Spec P (modify f) Q E := by
  intro s start
  refine ⟨fun b run => ?_, fun e run => ?_⟩
  · exact holds s start
  · cases run

variable {x : EStateM ε σ α}

theorem spec_bind {f : α → EStateM ε σ β} {M : α → σ → Prop} {Q : β → σ → Prop}
    (first : Spec P x M E) (rest : ∀ a, Spec (M a) (f a) Q E) : Spec P (x >>= f) Q E := by
  intro s start
  rcases bind_cases s x f with ⟨e, stop, failed, state⟩ | ⟨a, middle, result, state⟩
  · rw [failed, state]
    refine ⟨fun b run => ?_, fun e' run => ?_⟩
    · cases run
    · cases run
      exact (first s start).2 e stop
  · rw [result, state]
    exact rest a _ ((first s start).1 a middle)

theorem spec_get_bind {f : σ → EStateM ε σ β} {Q : β → σ → Prop}
    (rest : ∀ s, Spec (fun t => t = s ∧ P t) (f s) Q E) : Spec P (get >>= f) Q E :=
  spec_bind (M := fun s t => t = s ∧ P t) (spec_get fun _ start => ⟨rfl, start⟩) rest

theorem spec_tryCatch {h : ε → EStateM ε σ α} {M : ε → σ → Prop} (body : Spec P x Q M)
    (handler : ∀ e, Spec (M e) (h e) Q E) : Spec P (tryCatch x h) Q E := by
  intro s start
  rcases tryCatch_cases s x h with ⟨a, done, result, state⟩ | ⟨e, stop, result, state⟩
  · rw [result, state]
    refine ⟨fun b run => ?_, fun e run => ?_⟩
    · cases run
      exact (body s start).1 a done
    · cases run
  · rw [result, state]
    exact handler e _ ((body s start).2 e stop)

variable {B I : σ → Prop} {C Q' : α → σ → Prop} {p : Prop}

theorem spec_mono {D : ε → σ → Prop} (strong : Spec B x C D) (pre : ∀ s, P s → B s)
    (post : ∀ a s, C a s → Q a s) (raised : ∀ e s, D e s → E e s) : Spec P x Q E := by
  intro s start
  have both := strong s (pre s start)
  exact ⟨fun a run => post a _ (both.1 a run), fun e run => raised e _ (both.2 e run)⟩

theorem spec_pre (weak : Spec B x Q E) (pre : ∀ s, P s → B s) :
    Spec P x Q E := fun s start => weak s (pre s start)

theorem spec_adapt (strong : Spec B x C E) (pre : ∀ s, P s → B s) (post : ∀ a s, C a s → Q a s) :
    Spec P x Q E := spec_mono strong pre post fun _ _ raised => raised

theorem spec_post (strong : Spec P x C E) (post : ∀ a s, C a s → Q a s) : Spec P x Q E :=
  spec_adapt strong (fun _ start => start) post

theorem spec_after (spec : Spec P x (fun _ => I) fun _ => I) {s : σ} (start : P s) :
    I (after x s) := by
  have both := spec s start
  cases result : outcome x s with
  | ok a => exact both.1 a result
  | error e => exact both.2 e result

theorem spec_and {E' : ε → σ → Prop} (one : Spec P x Q E) (two : Spec P x Q' E') :
    Spec P x (fun a s => Q a s ∧ Q' a s) fun e s => E e s ∧ E' e s := by
  intro s start
  have first := one s start
  have second := two s start
  exact ⟨fun a run => ⟨first.1 a run, second.1 a run⟩, fun e run => ⟨first.2 e run, second.2 e run⟩⟩

theorem spec_both (one : Spec P x Q E) (two : Spec P x Q' E) :
    Spec P x (fun a s => Q a s ∧ Q' a s) E :=
  spec_mono (spec_and one two) (fun _ start => start) (fun _ _ post => post) fun _ _ raised => raised.1

theorem spec_assume (given : p → Spec P x Q E) : Spec (fun s => p ∧ P s) x Q E := by
  intro s start
  exact given start.1 s start.2

theorem spec_given (given : p → Spec (fun _ => True) x Q E) :
    Spec (fun _ => p) x Q E := fun s holds => given holds s trivial

theorem spec_exists {ι : Type} {P : ι → σ → Prop} (each : ∀ i, Spec (P i) x Q E) :
    Spec (fun s => ∃ i, P i s) x Q E := by
  intro s start
  obtain ⟨i, holds⟩ := start
  exact each i s holds

theorem spec_attempt (body : Spec P x Q E) :
    Spec P (attempt x) (fun result s => (∀ a, result = .ok a → Q a s) ∧
      ∀ e, result = .error e → E e s) fun _ _ => False := by
  intro s start
  have both := body s start
  refine ⟨fun result run => ?_, fun e run => ?_⟩
  · cases run
    exact both
  · cases run

theorem spec_of_steps {R : σ → σ → Prop} (steps : Steps R x) (stable : ∀ s t, I s → R s t → I t) :
    Spec I x (fun _ => I) fun _ => I := by
  intro s start
  have kept := stable s _ start (steps s)
  exact ⟨fun _ _ => kept, fun _ _ => kept⟩

theorem spec_of_unchanged (same : Steps Eq x) (raised : ∀ e s, P s → E e s) :
    Spec P x (fun a s => P s ∧ outcome x s = .ok a) E := by
  intro s start
  rw [← same s]
  exact ⟨fun a run => ⟨start, run⟩, fun e _ => raised e s start⟩

end

def Ensures (P : σ → Prop) (x : EStateM ε σ α) (Q : α → σ → Prop) : Prop :=
  Spec P x Q fun _ _ => True

section
variable {P Q' : σ → Prop} {Q : α → σ → Prop}

theorem ensures_pure {a : α} (holds : ∀ s, P s → Q a s) :
    Ensures P (pure a : EStateM ε σ α) Q := spec_pure holds

theorem ensures_throw (e : ε) : Ensures P (throw e : EStateM ε σ α) Q :=
  spec_throw fun _ _ => trivial

variable {x : EStateM ε σ α}

theorem ensures_get {Q : σ → σ → Prop} (holds : ∀ s, P s → Q s s) :
    Ensures P (get : EStateM ε σ σ) Q := spec_get holds

theorem ensures_modify {f : σ → σ} {Q : PUnit → σ → Prop} (holds : ∀ s, P s → Q ⟨⟩ (f s)) :
    Ensures P (modify f : EStateM ε σ PUnit) Q := spec_modify holds

variable {f : α → EStateM ε σ β} {M : α → σ → Prop}

theorem ensures_bind {Q : β → σ → Prop} (first : Ensures P x M) (rest : ∀ a, Ensures (M a) (f a) Q) :
    Ensures P (x >>= f) Q := spec_bind first rest

theorem ensures_mono (strong : Ensures P x M) (weaker : ∀ a s, M a s → Q a s) : Ensures P x Q :=
  spec_mono strong (fun _ start => start) weaker fun _ _ _ => trivial

theorem ensures_of_pre {P' : σ → Prop} (weak : Ensures P x Q) (stronger : ∀ s, P' s → P s) :
    Ensures P' x Q :=
  spec_mono weak stronger (fun _ _ post => post) fun _ _ _ => trivial

end

def Returns (x : EStateM ε σ α) : Prop := ∀ s, ∃ a, outcome x s = .ok a

theorem returns_pure (a : α) : Returns (pure a : EStateM ε σ α) := fun _ => ⟨a, rfl⟩

theorem returns_get : Returns (get : EStateM ε σ σ) := fun s => ⟨s, rfl⟩

theorem returns_modify (f : σ → σ) : Returns (modify f : EStateM ε σ PUnit) := fun _ => ⟨⟨⟩, rfl⟩

theorem returns_bind (first : Returns x) (rest : ∀ a, Returns (f a)) : Returns (x >>= f) := by
  intro s
  rcases bind_cases s x f with ⟨e, stop, -, -⟩ | ⟨a, -, result, -⟩
  · obtain ⟨a, done⟩ := first s
    rw [done] at stop
    cases stop
  · rw [result]
    exact rest a _

theorem returns_tryCatch (handler : ∀ e, Returns (h e)) : Returns (tryCatch x h) := by
  intro s
  rcases tryCatch_cases s x h with ⟨a, -, result, -⟩ | ⟨e, -, result, -⟩
  · exact ⟨a, result⟩
  · rw [result]
    exact handler e _

theorem spec_of_returns {Q : α → σ → Prop} {E' : ε → σ → Prop} (spec : Spec P x Q E)
    (returns : Returns x) : Spec P x Q E' := by
  intro s start
  refine ⟨(spec s start).1, fun e stop => ?_⟩
  obtain ⟨a, done⟩ := returns s
  rw [done] at stop
  cases stop

theorem spec_true (returns : Returns x) : Spec P x (fun _ _ => True) E :=
  spec_of_returns (E := fun _ _ => True) (fun _ _ => ⟨fun _ _ => trivial, fun _ _ => trivial⟩) returns

theorem tryCatch_eq_of_returns (returns : Returns x) (h : ε → EStateM ε σ α) :
    tryCatch x h = x := by
  funext s
  obtain ⟨a, done⟩ := returns s
  rw [tryCatch_apply]
  cases run : x s with
  | ok a t => rfl
  | error e t =>
    rw [outcome, run] at done
    cases done

-- A run as a partial function: what it returns and leaves behind, if it returns.
def success (x : EStateM ε σ α) (s : σ) : Option (α × σ) :=
  match x s with
  | .ok a t => some (a, t)
  | .error _ _ => none

@[simp] theorem success_pure (a : α) (s : σ) : success (pure a : EStateM ε σ α) s = some (a, s) := rfl

@[simp] theorem success_throw (e : ε) (s : σ) :
    success (throw e : EStateM ε σ α) s = none := rfl

@[simp] theorem success_modify (f : σ → σ) (s : σ) :
    success (modify f : EStateM ε σ PUnit) s = some (⟨⟩, f s) := rfl

@[simp] theorem success_get_bind (f : σ → EStateM ε σ α) (s : σ) :
    success (get >>= f) s = success (f s) s := rfl

theorem success_bind (x : EStateM ε σ α) (f : α → EStateM ε σ β) (s : σ) :
    success (x >>= f) s = (success x s).bind fun end_ => success (f end_.1) end_.2 := by
  unfold success
  cases run : x s with
  | ok a t => simp [bind, EStateM.bind, run]
  | error e t => simp [bind, EStateM.bind, run]

end Effect
