import Mathlib.Data.List.Nodup

/-!
Lists of key and value pairs read with `List.lookup`, and lists read by index.
Each way of changing such a list has one lemma that says what a reader finds
afterwards.
-/
namespace Assoc
variable {κ β : Type}

section
variable [BEq κ] [LawfulBEq κ]

theorem lookup_eq_none_iff_keys (l : List (κ × β)) (k : κ) :
    l.lookup k = none ↔ ∀ kv ∈ l, kv.1 ≠ k := by
  simp only [List.lookup_eq_none_iff, bne_iff_ne]
  exact forall₂_congr fun _ _ => ne_comm

theorem mem_of_lookup {l : List (κ × β)} {k : κ} {v : β} (found : l.lookup k = some v) :
    (k, v) ∈ l := by
  obtain ⟨front, back, split, -⟩ := List.lookup_eq_some_iff.mp found
  simp [split]

variable [DecidableEq κ]

theorem lookup_cons_if (j : κ) (kv : κ × β) (l : List (κ × β)) :
    (kv :: l).lookup j = if kv.1 = j then some kv.2 else l.lookup j := by
  obtain ⟨k, v⟩ := kv
  rw [List.lookup_cons]
  by_cases same : k = j
  · simp [same]
  · have other : (j == k) = false := beq_eq_false_iff_ne.mpr (Ne.symm same)
    simp [same, other]

theorem lookup_filter_ne (l : List (κ × β)) (k j : κ) :
    (l.filter fun kv => kv.1 ≠ k).lookup j = if j = k then none else l.lookup j := by
  induction l with
  | nil => simp
  | cons kv l ih =>
    by_cases dropped : kv.1 = k
    · rw [List.filter_cons_of_neg (by simp [dropped]), ih, lookup_cons_if]
      by_cases asked : j = k
      · simp [asked]
      · simp [dropped, asked, Ne.symm asked]
    · rw [List.filter_cons_of_pos (by simp [dropped]), lookup_cons_if, ih, lookup_cons_if]
      by_cases asked : j = k
      · simp [asked, dropped]
      · simp [asked]

theorem lookup_map_at (f : β → β) (l : List (κ × β)) (k j : κ) :
    (l.map fun kv => if kv.1 = k then (kv.1, f kv.2) else kv).lookup j =
      if j = k then (l.lookup j).map f else l.lookup j := by
  induction l with
  | nil => simp
  | cons kv l ih =>
    rw [List.map_cons, lookup_cons_if, ih, lookup_cons_if]
    by_cases here : kv.1 = k
    · by_cases asked : j = k
      · simp [here, asked]
      · simp [here, asked, Ne.symm asked]
    · by_cases asked : j = k
      · simp [here, asked]
      · simp [here, asked]

end

-- Writing one key, in place when it is there and at the end when it is not.
section
variable [DecidableEq κ]

def put (l : List (κ × β)) (k : κ) (v : β) : List (κ × β) :=
  if l.any (fun kv => kv.1 = k) then l.map fun kv => if kv.1 = k then (k, v) else kv
  else l ++ [(k, v)]

theorem keys_put (l : List (κ × β)) (k : κ) (v : β) :
    (put l k v).map Prod.fst =
      if k ∈ l.map Prod.fst then l.map Prod.fst else l.map Prod.fst ++ [k] := by
  have present : l.any (fun kv => kv.1 = k) = true ↔ k ∈ l.map Prod.fst := by simp
  unfold put
  by_cases here : k ∈ l.map Prod.fst
  · rw [if_pos (present.mpr here), if_pos here, List.map_map]
    refine List.map_congr_left fun kv _ => ?_
    by_cases same : kv.1 = k
    · simp [same]
    · simp [same]
  · rw [if_neg (fun any => here (present.mp any)), if_neg here]
    simp

theorem nodup_keys_put {l : List (κ × β)} (distinct : (l.map Prod.fst).Nodup) (k : κ) (v : β) :
    ((put l k v).map Prod.fst).Nodup := by
  rw [keys_put]
  split
  · exact distinct
  · rename_i fresh
    exact List.Nodup.append distinct (List.nodup_singleton k) (by simpa using fresh)

theorem put_put (l : List (κ × β)) (k : κ) (v w : β) : put (put l k v) k w = put l k w := by
  have now : (put l k v).any (fun kv => kv.1 = k) = true := by
    have key : k ∈ (put l k v).map Prod.fst := by
      rw [keys_put]
      split
      · assumption
      · simp
    simpa using key
  have rewritten : put (put l k v) k w =
      (put l k v).map fun kv => if kv.1 = k then (k, w) else kv := if_pos now
  rw [rewritten]
  unfold put
  split
  · rw [List.map_map]
    refine List.map_congr_left fun kv _ => ?_
    by_cases same : kv.1 = k
    · simp [same]
    · simp [same]
  · rename_i missing
    have absent : ∀ kv ∈ l, (if kv.1 = k then (k, w) else kv) = kv := by
      intro kv member
      exact if_neg fun here => missing (List.any_eq_true.mpr ⟨kv, member, by simp [here]⟩)
    rw [List.map_append, List.map_congr_left absent]
    simp

variable [BEq κ] [LawfulBEq κ]

theorem lookup_put (l : List (κ × β)) (k j : κ) (v : β) :
    (put l k v).lookup j = if j = k then some v else l.lookup j := by
  unfold put
  split
  · rename_i present
    have written : (l.map fun kv => if kv.1 = k then (k, v) else kv) =
        l.map fun kv => if kv.1 = k then (kv.1, (fun _ => v) kv.2) else kv := by
      refine List.map_congr_left fun kv _ => ?_
      by_cases here : kv.1 = k
      · simp [here]
      · simp [here]
    rw [written, lookup_map_at fun _ => v]
    by_cases asked : j = k
    · have found : (l.lookup k).isSome := by
        obtain ⟨kv, member, here⟩ := List.any_eq_true.mp present
        exact List.lookup_isSome_iff.mpr ⟨kv, member, beq_iff_eq.mpr (of_decide_eq_true here).symm⟩
      obtain ⟨old, stored⟩ := Option.isSome_iff_exists.mp found
      simp [asked, stored]
    · simp [asked]
  · rename_i missing
    have absent : l.lookup k = none := by
      rw [lookup_eq_none_iff_keys]
      intro kv member here
      exact missing (List.any_eq_true.mpr ⟨kv, member, by simp [here]⟩)
    rw [List.lookup_append, lookup_cons_if, List.lookup_nil]
    by_cases asked : j = k
    · simp [asked, absent]
    · simp [asked, Ne.symm asked]

theorem put_of_lookup {l : List (κ × β)} (distinct : (l.map Prod.fst).Nodup) {k : κ} {v : β}
    (found : l.lookup k = some v) : put l k v = l := by
  obtain ⟨front, back, split, -⟩ := List.lookup_eq_some_iff.mp found
  have here : l.any (fun kv => kv.1 = k) = true := by simp [split]
  unfold put
  rw [if_pos here]
  have unchanged : ∀ kv ∈ l, (if kv.1 = k then (k, v) else kv) = kv := by
    intro kv member
    by_cases same : kv.1 = k
    · have pair : kv = (k, v) :=
        List.inj_on_of_nodup_map distinct member (mem_of_lookup found) same
      simp [pair]
    · simp [same]
  exact (List.map_congr_left unchanged).trans (List.map_id l)

end
theorem mem_modify {l : List β} {i : Nat} {f : β → β} {x : β} (member : x ∈ l.modify i f) :
    x ∈ l ∨ ∃ old ∈ l, x = f old := by
  obtain ⟨j, found⟩ := List.mem_iff_getElem?.mp member
  rw [List.getElem?_modify] at found
  obtain ⟨old, there, same⟩ := Option.map_eq_some_iff.mp found
  have listed := List.mem_of_getElem? there
  by_cases here : i = j
  · rw [if_pos here] at same
    exact Or.inr ⟨old, listed, same.symm⟩
  · rw [if_neg here] at same
    exact Or.inl (same ▸ listed)

theorem getD_of_prefix {l l' : List β} {i : Nat} {d : β} (front : l <+: l')
    (inside : i < l.length) : l'.getD i d = l.getD i d := by
  obtain ⟨more, rfl⟩ := front
  simp [List.getD_eq_getElem?_getD, List.getElem?_append_left inside]

theorem prefix_modify_new (l : List β) (new : β) (f : β → β) :
    l <+: (l ++ [new]).modify l.length f := by
  induction l with
  | nil => exact List.nil_prefix
  | cons x l ih =>
    rw [List.cons_append, List.length_cons, List.modify_succ_cons]
    exact List.cons_prefix_cons.mpr ⟨rfl, ih⟩

end Assoc
