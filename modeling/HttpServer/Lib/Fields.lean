import Mathlib.Data.List.TakeWhile

/-!
Separated fields of a list, in the reading of a loop that takes the text up to
the next separator and continues behind it until nothing is left. A separator
at the very end closes the last field and does not open an empty one. The
joining direction is `List.intercalate`.
-/
namespace Fields
variable {α : Type} {fs gs : List (List α)} {sep : α} {f : List α}

theorem mem_intercalate {sep : List α} {c : α} (member : c ∈ sep.intercalate fs) :
    c ∈ sep ∨ ∃ f ∈ fs, c ∈ f := by
  induction fs with
  | nil => simp at member
  | cons f rest ih =>
    cases rest with
    | nil =>
      rw [List.intercalate_singleton] at member
      exact Or.inr ⟨f, List.mem_cons_self, member⟩
    | cons g rest =>
      rw [List.intercalate_cons_cons] at member
      rcases List.mem_append.mp member with front | back
      · rcases List.mem_append.mp front with first | separator
        · exact Or.inr ⟨f, List.mem_cons_self, first⟩
        · exact Or.inl separator
      · rcases ih back with separator | ⟨field, listed, inside⟩
        · exact Or.inl separator
        · exact Or.inr ⟨field, List.mem_cons_of_mem f listed, inside⟩

theorem intercalate_cons_head (sep : List α) (c : α) (f : List α) (fs : List (List α)) :
    sep.intercalate ((c :: f) :: fs) = c :: sep.intercalate (f :: fs) := by
  cases fs with
  | nil => simp
  | cons g rest => simp [List.intercalate_cons_cons]

theorem intercalate_append (sep : List α) (someF : fs ≠ []) (someG : gs ≠ []) :
    sep.intercalate (fs ++ gs) = sep.intercalate fs ++ (sep ++ sep.intercalate gs) := by
  obtain ⟨g, rest, rfl⟩ := List.exists_cons_of_ne_nil someG
  induction fs with
  | nil => exact absurd rfl someF
  | cons f fs ih =>
    cases fs with
    | nil => rw [List.singleton_append, List.intercalate_cons_cons, List.intercalate_singleton,
        List.append_assoc]
    | cons f' fs =>
      have tail := ih (List.cons_ne_nil f' fs)
      rw [List.cons_append] at tail
      rw [List.cons_append, List.cons_append, List.intercalate_cons_cons, tail,
        List.intercalate_cons_cons]
      simp only [List.append_assoc]

theorem intercalate_pair (sep filler : α) (f : List α) (fs : List (List α)) :
    [sep, filler].intercalate (f :: fs) = [sep].intercalate (f :: fs.map (filler :: ·)) := by
  induction fs generalizing f with
  | nil => simp
  | cons g rest ih =>
    rw [List.intercalate_cons_cons, ih, List.map_cons, List.intercalate_cons_cons,
      intercalate_cons_head]
    simp

def lead (sep : α) (fs : List (List α)) : List α := fs.flatMap fun f => sep :: f

theorem lead_cons (sep : α) (f : List α) (fs : List (List α)) :
    lead sep (f :: fs) = sep :: (f ++ lead sep fs) := by
  simp [lead]

theorem lead_append (sep : α) (fs gs : List (List α)) :
    lead sep (fs ++ gs) = lead sep fs ++ lead sep gs := by
  simp [lead]

theorem cons_intercalate_eq_lead (sep : α) (fs : List (List α)) (nonempty : fs ≠ []) :
    sep :: [sep].intercalate fs = lead sep fs := by
  induction fs with
  | nil => exact absurd rfl nonempty
  | cons f rest ih =>
    cases rest with
    | nil => simp [lead]
    | cons g rest =>
      have tail := ih (by simp)
      rw [lead_cons, ← tail, List.intercalate_cons_cons]
      simp

theorem head_lead (sep : α) (fs : List (List α)) :
    lead sep fs = [] ∨ ∃ rest, lead sep fs = sep :: rest := by
  cases fs with
  | nil => exact Or.inl rfl
  | cons f rest => exact Or.inr ⟨f ++ lead sep rest, lead_cons sep f rest⟩

theorem append_sep_prefix_iff {sep : α} {f g x y : List α} (cleanF : sep ∉ f) (cleanG : sep ∉ g)
    (next : y = [] ∨ ∃ rest, y = sep :: rest) :
    f ++ sep :: x <+: g ++ y ↔ f = g ∧ sep :: x <+: y := by
  induction f generalizing g with
  | nil =>
    cases g with
    | nil => simp
    | cons b g =>
      have apart : sep ≠ b := fun same => cleanG (by simp [same])
      simp [List.cons_prefix_cons, apart]
  | cons a f ih =>
    have apart : a ≠ sep := fun same => cleanF (by simp [same])
    cases g with
    | nil =>
      rcases next with rfl | ⟨rest, rfl⟩
      · simp
      · simp [List.cons_prefix_cons, apart]
    | cons b g =>
      have tail := @ih g (fun h => cleanF (by simp [h])) (fun h => cleanG (by simp [h]))
      simp only [List.cons_append, List.cons_prefix_cons, List.cons.injEq, tail, and_assoc]

theorem lead_sep_prefix_iff (cleanF : ∀ f ∈ fs, sep ∉ f) (cleanG : ∀ g ∈ gs, sep ∉ g) :
    lead sep fs ++ [sep] <+: lead sep gs ↔ fs <+: gs ∧ fs ≠ gs := by
  induction fs generalizing gs with
  | nil =>
    cases gs with
    | nil => simp [lead]
    | cons g gs => simp [lead]
  | cons f fs ih =>
    cases gs with
    | nil => simp [lead]
    | cons g gs =>
      have tail := @ih gs (fun x h => cleanF x (by simp [h])) (fun x h => cleanG x (by simp [h]))
      have split : ∃ x, lead sep fs ++ [sep] = sep :: x := by
        rcases head_lead sep fs with empty | ⟨rest, full⟩
        · exact ⟨[], by simp [empty]⟩
        · exact ⟨rest ++ [sep], by simp [full]⟩
      obtain ⟨x, shape⟩ := split
      have first := @append_sep_prefix_iff α sep f g x (lead sep gs) (cleanF f (by simp))
        (cleanG g (by simp)) (head_lead sep gs)
      rw [← shape, tail] at first
      simp only [lead_cons, List.cons_append, List.append_assoc, List.cons_prefix_cons, true_and,
        first, List.cons.injEq, ne_eq, not_and]
      constructor
      · rintro ⟨rfl, front, other⟩
        exact ⟨⟨rfl, front⟩, fun _ => other⟩
      · rintro ⟨⟨rfl, front⟩, other⟩
        exact ⟨rfl, front, other rfl⟩

variable [DecidableEq α]

def popField (sep : α) (s : List α) : List α × List α :=
  (s.takeWhile (fun c => !decide (c = sep)), (s.dropWhile (fun c => !decide (c = sep))).tail)

def fields (sep : α) : List α → List (List α)
  | [] => []
  | c :: s =>
    if c = sep then [] :: fields sep s
    else match fields sep s with
      | [] => [[c]]
      | f :: fs => (c :: f) :: fs

@[simp] theorem fields_nil (sep : α) : fields sep [] = [] := rfl

@[simp] theorem fields_sep_cons (sep : α) (s : List α) :
    fields sep (sep :: s) = [] :: fields sep s := by
  simp [fields]

theorem fields_eq_pop (sep : α) (s : List α) (nonempty : s ≠ []) :
    fields sep s = (popField sep s).1 :: fields sep (popField sep s).2 := by
  induction s with
  | nil => exact absurd rfl nonempty
  | cons c s ih =>
    by_cases h : c = sep
    · subst h
      simp [popField]
    · cases s with
      | nil => simp [fields, popField, h]
      | cons d s =>
        have tail := ih (by simp)
        simp only [popField] at tail ⊢
        rw [fields, if_neg h, tail]
        simp [h]

theorem sep_not_mem_fields (sep : α) (s : List α) :
    ∀ f ∈ fields sep s, sep ∉ f := by
  induction s with
  | nil => simp
  | cons c s ih =>
    by_cases h : c = sep
    · subst h
      simpa using ih
    · rw [fields, if_neg h]
      cases tail : fields sep s with
      | nil => simpa using Ne.symm h
      | cons f fs =>
        rw [tail] at ih
        intro g member
        rcases List.mem_cons.mp member with rfl | later
        · simpa [Ne.symm h] using ih f (by simp)
        · exact ih g (by simp [later])

theorem popField_append (sep : α) (f s : List α) (clean : sep ∉ f) :
    popField sep (f ++ sep :: s) = (f, s) := by
  have before : ∀ c ∈ f, (!decide (c = sep)) = true := by
    intro c member
    simpa using fun same : c = sep => clean (same ▸ member)
  simp [popField, List.takeWhile_append_of_pos before, List.dropWhile_append_of_pos before]

theorem append_sep_inj {g x y : List α} (cleanF : sep ∉ f) (cleanG : sep ∉ g)
    (same : f ++ sep :: x = g ++ sep :: y) : f = g ∧ x = y := by
  have popped := congrArg (popField sep) same
  rw [popField_append sep f x cleanF, popField_append sep g y cleanG] at popped
  exact Prod.mk.inj popped

theorem popField_last (sep : α) (f : List α) (clean : sep ∉ f) :
    popField sep f = (f, []) := by
  have before : ∀ c ∈ f, (!decide (c = sep)) = true := by
    intro c member
    simpa using fun same : c = sep => clean (same ▸ member)
  simp [popField, List.takeWhile_eq_self_iff.mpr before, List.dropWhile_eq_nil_iff.mpr before]

theorem fields_intercalate (sep : α) (fs : List (List α))
    (clean : ∀ f ∈ fs, sep ∉ f) (nonempty : ∀ f ∈ fs, f ≠ []) :
    fields sep ([sep].intercalate fs) = fs := by
  induction fs with
  | nil => simp
  | cons f rest ih =>
    have tail := ih (fun g h => clean g (by simp [h])) (fun g h => nonempty g (by simp [h]))
    cases rest with
    | nil =>
      rw [List.intercalate_singleton, fields_eq_pop sep f (nonempty f (by simp)),
        popField_last sep f (clean f (by simp)), fields_nil]
    | cons g rest =>
      rw [List.intercalate_cons_cons, List.append_assoc, List.singleton_append,
        fields_eq_pop sep _ (by simp), popField_append sep f _ (clean f (by simp)), tail]

theorem fields_intercalate_append (sep : α) (some_ : fs ≠ []) (clean : ∀ f ∈ fs, sep ∉ f)
    (s : List α) : fields sep ([sep].intercalate fs ++ sep :: s) = fs ++ fields sep s := by
  induction fs with
  | nil => exact absurd rfl some_
  | cons f rest ih =>
    have first := clean f List.mem_cons_self
    cases rest with
    | nil =>
      rw [List.intercalate_singleton, fields_eq_pop sep _ (by simp), popField_append sep f s first]
      rfl
    | cons g rest =>
      have tail := ih (List.cons_ne_nil g rest) fun x listed => clean x (List.mem_cons_of_mem f listed)
      rw [List.intercalate_cons_cons, List.append_assoc, List.append_assoc, List.singleton_append,
        fields_eq_pop sep _ (by simp), popField_append sep f _ first, tail]
      rfl

theorem fields_intercalate_pair {filler : α} (apart : sep ≠ filler) {rest : List (List α)}
    (clean : ∀ g ∈ f :: rest, g ≠ [] ∧ sep ∉ g) :
    fields sep ([sep, filler].intercalate (f :: rest)) = f :: rest.map (filler :: ·) := by
  rw [intercalate_pair]
  have first := clean f List.mem_cons_self
  refine fields_intercalate sep _ (List.forall_mem_cons.mpr ⟨first.2, ?_⟩)
    (List.forall_mem_cons.mpr ⟨first.1, ?_⟩)
  · intro g listed
    obtain ⟨g, there, rfl⟩ := List.mem_map.mp listed
    simp [apart, (clean g (List.mem_cons_of_mem f there)).2]
  · intro g listed
    obtain ⟨g, -, rfl⟩ := List.mem_map.mp listed
    exact List.cons_ne_nil filler g

theorem intercalate_pair_inj {filler : α} (apart : sep ≠ filler)
    (cleanF : ∀ f ∈ fs, f ≠ [] ∧ sep ∉ f) (cleanG : ∀ g ∈ gs, g ≠ [] ∧ sep ∉ g)
    (same : [sep, filler].intercalate fs = [sep, filler].intercalate gs) : fs = gs := by
  have read := congrArg (fields sep) same
  cases fs with
  | nil =>
    cases gs with
    | nil => rfl
    | cons g rest =>
      rw [fields_intercalate_pair apart cleanG] at read
      simp at read
  | cons f fs =>
    cases gs with
    | nil =>
      rw [fields_intercalate_pair apart cleanF] at read
      simp at read
    | cons g gs =>
      rw [fields_intercalate_pair apart cleanF, fields_intercalate_pair apart cleanG] at read
      obtain ⟨first, rest⟩ := List.cons.inj read
      rw [first, (List.map_inj_right fun _ _ => List.tail_eq_of_cons_eq).mp rest]

theorem fields_ne_nil (sep : α) {s : List α} (nonempty : s ≠ []) : fields sep s ≠ [] := by
  rw [fields_eq_pop sep s nonempty]
  simp

theorem fields_concat_sep (sep : α) (s : List α) :
    fields sep (s ++ [sep]) = fields sep s ∨ fields sep (s ++ [sep]) = fields sep s ++ [[]] := by
  induction s with
  | nil => exact Or.inr (by simp)
  | cons c s ih =>
    by_cases h : c = sep
    · subst h
      rcases ih with same | longer
      · exact Or.inl (by simp [same])
      · exact Or.inr (by simp [longer])
    · by_cases last : s = []
      · subst last
        exact Or.inl (by simp [fields, h])
      · obtain ⟨f, fs, split⟩ := List.exists_cons_of_ne_nil (fields_ne_nil sep last)
        rw [List.cons_append, fields, if_neg h, fields, if_neg h]
        rcases ih with same | longer
        · exact Or.inl (by rw [same])
        · exact Or.inr (by simp [longer, split])

/-- Joining the fields of a text gives it back without a separator at its end. -/
theorem intercalate_fields (sep : α) (s : List α) :
    [sep].intercalate (fields sep s) = if s.getLast? = some sep then s.dropLast else s := by
  induction s with
  | nil => rfl
  | cons c s ih =>
    by_cases last : s = []
    · subst last
      by_cases h : c = sep
      · simp [fields, h]
      · simp [fields, h]
    · obtain ⟨f, fs, split⟩ := List.exists_cons_of_ne_nil (fields_ne_nil sep last)
      have whole : [sep].intercalate (fields sep (c :: s)) = c :: [sep].intercalate (f :: fs) := by
        by_cases h : c = sep
        · rw [h, fields_sep_cons, split, List.intercalate_cons_cons]
          rfl
        · rw [fields, if_neg h, split]
          cases fs with
          | nil => simp
          | cons g gs => simp [List.intercalate_cons_cons]
      rw [whole, ← split, ih, List.getLast?_cons_of_ne_nil last, List.dropLast_cons_of_ne_nil last]
      split
      · rfl
      · rfl

theorem mem_of_mem_fields {c : α} {s : List α} (listed : f ∈ fields sep s) (inside : c ∈ f) :
    c ∈ s := by
  induction s generalizing f with
  | nil => simp at listed
  | cons d s ih =>
    by_cases h : d = sep
    · subst h
      rw [fields_sep_cons] at listed
      rcases List.mem_cons.mp listed with rfl | later
      · simp at inside
      · exact List.mem_cons_of_mem _ (ih later inside)
    · rw [fields, if_neg h] at listed
      cases tail : fields sep s with
      | nil =>
        simp only [tail, List.mem_singleton] at listed
        subst listed
        simpa using Or.inl inside
      | cons g gs =>
        rw [tail] at listed ih
        rcases List.mem_cons.mp listed with rfl | later
        · rcases List.mem_cons.mp inside with rfl | rest
          · exact List.mem_cons_self
          · exact List.mem_cons_of_mem _ (ih (by simp) rest)
        · exact List.mem_cons_of_mem _ (ih (by simp [later]) inside)

theorem popField_eq_idxOf (sep : α) (s : List α) :
    popField sep s = (s.take ((s.idxOf? sep).getD s.length),
      s.drop ((s.idxOf? sep).getD s.length + 1)) := by
  induction s with
  | nil => rfl
  | cons c s ih =>
    simp only [popField, Prod.mk.injEq] at ih
    by_cases here : c = sep
    · subst here
      simp [popField, List.idxOf?_cons]
    · have shifted : (List.idxOf? sep (c :: s)).getD (c :: s).length =
          (s.idxOf? sep).getD s.length + 1 := by
        rw [List.idxOf?_cons, if_neg (by simpa using here), List.length_cons]
        cases s.idxOf? sep with
        | none => rfl
        | some i => rfl
      rw [shifted]
      simp [popField, here, ih.1, ih.2]

/-- Splitting at every separator also counts the empty field behind a last one. -/
theorem splitOn_eq_fields (sep : α) (s : List α) :
    s.splitOn sep =
      if s = [] ∨ s.getLast? = some sep then fields sep s ++ [[]] else fields sep s := by
  induction s with
  | nil => rfl
  | cons c s ih =>
    rw [List.splitOn_cons_eq_if_modifyHead, ih]
    simp only [beq_iff_eq]
    cases s with
    | nil =>
      by_cases here : c = sep
      · simp [here]
      · simp [fields, here]
    | cons d s =>
      have ends : (c :: d :: s).getLast? = (d :: s).getLast? := List.getLast?_cons_cons
      obtain ⟨f, fs, split⟩ := List.exists_cons_of_ne_nil (fields_ne_nil sep (List.cons_ne_nil d s))
      rw [ends]
      by_cases here : c = sep
      · subst here
        rw [if_pos rfl, fields_sep_cons]
        simp only [List.cons_ne_nil, false_or]
        split
        · rfl
        · rfl
      · have whole : fields sep (c :: d :: s) = (c :: f) :: fs := by
          rw [fields, if_neg here, split]
        rw [if_neg here, whole, split]
        simp only [List.cons_ne_nil, false_or]
        split
        · rfl
        · rfl

end Fields
