import Mathlib.Data.List.Basic

/-!
Runs of a deterministic machine whose steps meet a condition on the state they
start from, the induction that carries an invariant along such a run, and the
one that carries a relation between two states along both of their runs.
-/
namespace Run
variable {σ α ω : Type}

def Within (step : σ → α → σ) (ok : σ → α → Prop) : σ → List α → Prop
  | _, [] => True
  | s, a :: as => ok s a ∧ Within step ok (step s a) as

instance Within.decide (step : σ → α → σ) (ok : σ → α → Prop) [∀ s a, Decidable (ok s a)] :
    ∀ s as, Decidable (Within step ok s as)
  | _, [] => inferInstanceAs (Decidable True)
  | s, a :: as =>
    let _ := Within.decide step ok (step s a) as
    inferInstanceAs (Decidable (ok s a ∧ Within step ok (step s a) as))

variable {step : σ → α → σ} {ok : σ → α → Prop} {s : σ} {as : List α}

theorem invariant {I : σ → Prop} (preserve : ∀ s a, I s → ok s a → I (step s a)) (start : I s)
    (within : Within step ok s as) : I (as.foldl step s) := by
  induction as generalizing s with
  | nil => exact start
  | cons a as ih => exact ih (preserve s a start within.1) within.2

theorem within_append {bs : List α} :
    Within step ok s (as ++ bs) ↔ Within step ok s as ∧ Within step ok (as.foldl step s) bs := by
  induction as generalizing s with
  | nil => simp [Within]
  | cons a as ih => simp only [List.cons_append, Within, ih, List.foldl_cons, and_assoc]

theorem within_and {P : α → Prop} (all : ∀ a ∈ as, P a) (within : Within step ok s as) :
    Within step (fun s a => P a ∧ ok s a) s as := by
  induction as generalizing s with
  | nil => trivial
  | cons a as ih =>
    exact ⟨⟨all a List.mem_cons_self, within.1⟩,
      ih (fun b listed => all b (List.mem_cons_of_mem a listed)) within.2⟩

theorem exists_longest (P : List α → Prop) (as : List α) :
    ∃ taken rest, as = taken ++ rest ∧ (∀ part, part <+: taken → part ≠ [] → P part) ∧
      ∀ a later, rest = a :: later → ¬ P (taken ++ [a]) := by
  classical
  suffices from_ : ∀ done : List α, (∀ part, part <+: done → part ≠ [] → P part) →
      ∃ taken rest, done ++ as = taken ++ rest ∧
        (∀ part, part <+: taken → part ≠ [] → P part) ∧
        ∀ a later, rest = a :: later → ¬ P (taken ++ [a]) by
    refine from_ [] fun part short some_ => absurd (List.prefix_nil.mp short) some_
  induction as with
  | nil =>
    intro done allowed
    exact ⟨done, [], rfl, allowed, fun a later stop => by cases stop⟩
  | cons a as ih =>
    intro done allowed
    by_cases next : P (done ++ [a])
    · obtain ⟨taken, rest, split, all, stops⟩ := ih (done ++ [a]) fun part short some_ => by
        rcases List.prefix_concat_iff.mp short with rfl | earlier
        · exact next
        · exact allowed part earlier some_
      exact ⟨taken, rest, by rw [← split]; simp, all, stops⟩
    · refine ⟨done, a :: as, rfl, allowed, fun b later stop => ?_⟩
      cases stop
      exact next

def outputs (step : σ → α → σ) (out : σ → α → ω) : σ → List α → List ω
  | _, [] => []
  | s, a :: as => out s a :: outputs step out (step s a) as

theorem outputs_congr {out : σ → α → ω} {R : σ → σ → Prop}
    (same : ∀ s t a, R s t → ok s a → out s a = out t a)
    (preserve : ∀ s t a, R s t → ok s a → R (step s a) (step t a)) {t : σ} (start : R s t)
    (within : Within step ok s as) : outputs step out s as = outputs step out t as := by
  induction as generalizing s t with
  | nil => rfl
  | cons a as ih =>
    rw [outputs, outputs, same s t a start within.1,
      ih (preserve s t a start within.1) within.2]

end Run
