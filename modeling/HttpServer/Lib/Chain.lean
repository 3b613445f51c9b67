import Mathlib.Data.List.Basic

/-!
Chains that stop at the first answer. Every link is called in its turn and
either lets the chain go on or answers; the answer ends the chain and is kept.
-/
namespace Chain
variable {ι ρ : Type}

/-- The calls that were made along the links, each with its answer, and the
    answer that is kept. -/
def FirstAnswer (links : List ι) (calls : List (ι × Option ρ)) : Option ρ → Prop
  | none => calls = links.map (·, none)
  | some r => ∃ front i back, links = front ++ i :: back ∧
      calls = front.map (·, none) ++ [(i, some r)]

namespace FirstAnswer
variable {links more : List ι} {calls later : List (ι × Option ρ)} {kept : Option ρ}

theorem nil : FirstAnswer ([] : List ι) ([] : List (ι × Option ρ)) none := rfl

theorem single (i : ι) (answer : Option ρ) : FirstAnswer [i] [(i, answer)] answer := by
  cases answer with
  | none => rfl
  | some r => exact ⟨[], i, [], rfl, rfl⟩

theorem append (passed : FirstAnswer links calls none) (rest : FirstAnswer more later kept) :
    FirstAnswer (links ++ more) (calls ++ later) kept := by
  cases kept with
  | none =>
    rw [show calls = _ from passed, show later = _ from rest]
    exact List.map_append.symm
  | some r =>
    obtain ⟨front, i, back, chain, made⟩ := rest
    refine ⟨links ++ front, i, back, ?_, ?_⟩
    · rw [chain, List.append_assoc]
    · rw [made, show calls = _ from passed, List.map_append, List.append_assoc]

variable {r : ρ} {i : ι} {c : ι × Option ρ}

theorem stop (answered : FirstAnswer links calls (some r)) (more : List ι) :
    FirstAnswer (links ++ more) calls (some r) := by
  obtain ⟨front, i, back, chain, made⟩ := answered
  exact ⟨front, i, back ++ more, by simp [chain], made⟩

theorem isPrefix (runs : FirstAnswer links calls kept) : calls.map Prod.fst <+: links := by
  have named (l : List ι) : (l.map (·, (none : Option ρ))).map Prod.fst = l := by
    rw [List.map_map]
    exact List.map_id' l
  cases kept with
  | none => exact ⟨[], by rw [show calls = _ from runs, named, List.append_nil]⟩
  | some r =>
    obtain ⟨front, i, back, chain, made⟩ := runs
    exact ⟨back, by rw [chain, made, List.map_append, named, List.append_assoc]; rfl⟩

theorem head (runs : FirstAnswer (i :: links) calls kept) : ∃ a later, calls = (i, a) :: later := by
  cases kept with
  | none => exact ⟨none, _, runs⟩
  | some r =>
    obtain ⟨front, j, back, chain, made⟩ := runs
    cases front with
    | nil =>
      injection chain with same
      exact ⟨some r, [], by rw [made, same]; rfl⟩
    | cons k front =>
      injection chain with same
      exact ⟨none, _, by rw [made, same]; rfl⟩

theorem ne_nil (runs : FirstAnswer links calls kept) (some_ : links ≠ []) : calls ≠ [] := by
  obtain ⟨i, rest, rfl⟩ := List.exists_cons_of_ne_nil some_
  obtain ⟨a, later, rfl⟩ := runs.head
  exact List.cons_ne_nil _ _

theorem split (runs : FirstAnswer (links ++ more) calls kept) :
    (∃ r, kept = some r ∧ FirstAnswer links calls (some r)) ∨
      ∃ later, calls = links.map (·, none) ++ later ∧ FirstAnswer more later kept := by
  cases kept with
  | none =>
    refine Or.inr ⟨more.map (·, none), ?_, rfl⟩
    rw [show calls = _ from runs, List.map_append]
  | some r =>
    obtain ⟨front, i, back, chain, made⟩ := runs
    rcases List.append_eq_append_iff.mp chain with ⟨mid, late, rest⟩ | ⟨mid, early, rest⟩
    · refine Or.inr ⟨mid.map (·, none) ++ [(i, some r)], ?_, mid, i, back, rest, rfl⟩
      rw [made, late, List.map_append, List.append_assoc]
    · cases mid with
      | nil =>
        refine Or.inr ⟨[(i, some r)], ?_, [], i, back, rest.symm, rfl⟩
        rw [made, early, List.append_nil]
      | cons j mid =>
        injection rest with same tail
        subst same
        exact Or.inl ⟨r, rfl, front, i, mid, early, made⟩

theorem mem_links (runs : FirstAnswer links calls kept) (called : c ∈ calls) : c.1 ∈ links :=
  runs.isPrefix.subset (List.mem_map_of_mem called)

theorem answered (runs : FirstAnswer links calls (some r)) : ∃ i ∈ links, (i, some r) ∈ calls := by
  obtain ⟨front, i, back, chain, made⟩ := runs
  exact ⟨i, by simp [chain], by simp [made]⟩

theorem passed (runs : FirstAnswer links calls none) (called : c ∈ calls) : c.2 = none := by
  rw [show calls = _ from runs] at called
  obtain ⟨i, -, rfl⟩ := List.mem_map.mp called
  rfl

theorem not_behind (runs : FirstAnswer links (calls ++ later) kept) (called : (i, some r) ∈ calls) :
    later = [] := by
  cases kept with
  | none => cases runs.passed (List.mem_append_left later called)
  | some r' =>
    obtain ⟨front, j, back, -, made⟩ := runs
    rcases List.eq_nil_or_concat later with none_ | ⟨init, last, rfl⟩
    · exact none_
    · -- the answered call would stand among those that passed
      rw [List.concat_eq_append, ← List.append_assoc] at made
      have passes := (List.append_inj' made rfl).1
      have among : (i, some r) ∈ front.map (·, none) := by
        rw [← passes]
        exact List.mem_append_left init called
      simp at among

end FirstAnswer
end Chain
