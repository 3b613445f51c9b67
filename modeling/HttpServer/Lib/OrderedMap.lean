import HttpServer.Lib.ComparatorSet
import Mathlib.Order.RelClasses

/-!
A map kept as a list of pairs in the order of a comparison of its keys. Two keys
are one when neither is less. One lemma says what a lookup finds after a write.
-/
namespace OrderedMap
open ComparatorSet
variable {κ β : Type}

structure Comparison (less : κ → κ → Bool) : Prop where
  asymm : ∀ a b, less a b = true → less b a = false
  between : ∀ a b c, less a c = true → less a b = true ∨ less b c = true

variable (less : κ → κ → Bool)

def find (l : List (κ × β)) (key : κ) : Option β :=
  (l.find? fun kv => equivalent less kv.1 key).map Prod.snd

def alter (key : κ) (f : Option β → β) : List (κ × β) → List (κ × β)
  | [] => [(key, f none)]
  | (k, v) :: rest =>
    if less key k then (key, f none) :: (k, v) :: rest
    else if less k key then (k, v) :: alter key f rest
    else (k, f (some v)) :: rest

def Ordered (l : List (κ × β)) : Prop := l.Pairwise fun a b => less a.1 b.1 = true

variable {less}

namespace Comparison

theorem trans (order : Comparison less) {a b c : κ} (ab : less a b = true) (bc : less b c = true) :
    less a c = true := by
  rcases order.between a c b ab with ac | cb
  · exact ac
  · rw [order.asymm b c bc] at cb
    cases cb

theorem equivalent_trans (order : Comparison less) {a b : κ} (same : equivalent less a b = true)
    (c : κ) : equivalent less a c = equivalent less b c := by
  simp only [equivalent, Bool.and_eq_true, Bool.not_eq_true'] at same
  have left : less a c = less b c := by
    rw [Bool.eq_iff_iff]
    refine ⟨fun ac => ?_, fun bc => ?_⟩
    · exact (order.between a b c ac).resolve_left (by simp [same.1])
    · exact (order.between b a c bc).resolve_left (by simp [same.2])
  have right : less c a = less c b := by
    rw [Bool.eq_iff_iff]
    refine ⟨fun ca => ?_, fun cb => ?_⟩
    · exact (order.between c b a ca).resolve_right (by simp [same.2])
    · exact (order.between c a b cb).resolve_right (by simp [same.1])
  rw [equivalent, equivalent, left, right]

theorem equivalent_self (order : Comparison less) (a : κ) : equivalent less a a = true := by
  cases own : less a a with
  | false => simp [equivalent, own]
  | true => exact absurd own (by simp [order.asymm a a own])

theorem isStrictWeakOrder (order : Comparison less) :
    IsStrictWeakOrder κ fun a b => less a b = true :=
  have : Std.Asymm fun a b => less a b = true := ⟨fun a b ab => by simp [order.asymm a b ab]⟩
  have : IsOrderConnected κ fun a b => less a b = true := ⟨order.between⟩
  isStrictWeakOrder_of_isOrderConnected

theorem comap {ι : Type} (order : Comparison less) (g : ι → κ) :
    Comparison fun a b => less (g a) (g b) :=
  ⟨fun a b => order.asymm (g a) (g b), fun a b c => order.between (g a) (g b) (g c)⟩

end Comparison

theorem not_equivalent {a b : κ} (ab : less a b = true) : equivalent less a b = false := by
  simp [equivalent, ab]

theorem equivalent_comm (a b : κ) : equivalent less a b = equivalent less b a :=
  Bool.and_comm _ _

@[simp]
theorem find_nil (key : κ) : find less ([] : List (κ × β)) key = none := rfl

theorem find_cons (kv : κ × β) (l : List (κ × β)) (key : κ) :
    find less (kv :: l) key =
      if equivalent less kv.1 key = true then some kv.2 else find less l key := by
  cases same : equivalent less kv.1 key with
  | true => simp [find, same]
  | false => simp [find, same]

variable {l : List (κ × β)} {ι γ σ : Type} {less' : ι → ι → Bool} {g : κ → ι}

theorem mem_of_find {key : κ} {v : β} (found : find less l key = some v) : ∃ k, (k, v) ∈ l := by
  obtain ⟨kv, here, value⟩ := Option.map_eq_some_iff.mp found
  exact ⟨kv.1, value ▸ List.mem_of_find?_eq_some here⟩

theorem find_eq_none {key : κ} (above : ∀ kv ∈ l, less key kv.1 = true) :
    find less l key = none := by
  rw [find, Option.map_eq_none_iff, List.find?_eq_none]
  intro kv listed
  rw [equivalent_comm, not_equivalent (above kv listed)]
  simp

theorem find_congr (order : Comparison less) {a b : κ} (same : equivalent less a b = true)
    (l : List (κ × β)) : find less l a = find less l b := by
  have asked : (fun kv : κ × β => equivalent less kv.1 a) = fun kv => equivalent less kv.1 b := by
    funext kv
    rw [equivalent_comm, order.equivalent_trans same, equivalent_comm]
  rw [find, find, asked]

theorem find_map (h : β → γ) (same : ∀ a b, less a b = less' (g a) (g b)) (l : List (κ × β))
    (key : κ) : find less' (l.map (Prod.map g h)) (g key) = (find less l key).map h := by
  induction l with
  | nil => rfl
  | cons head rest ih =>
    have met : equivalent less' (g head.1) (g key) = equivalent less head.1 key := by
      rw [equivalent, equivalent, same, same]
    rw [List.map_cons, find_cons, find_cons, Prod.map_fst, met, ih]
    split
    · rfl
    · rfl

theorem forall_alter {P : κ → Prop} {Q : β → Prop} {l : List (κ × β)}
    (all : ∀ kv ∈ l, P kv.1 ∧ Q kv.2) {key : κ} (named : P key) {f : Option β → β}
    (valued : ∀ v, Q (f v)) : ∀ kv ∈ alter less key f l, P kv.1 ∧ Q kv.2 := by
  induction l with
  | nil =>
    intro kv listed
    rw [alter, List.mem_singleton] at listed
    exact listed ▸ ⟨named, valued none⟩
  | cons head rest ih =>
    obtain ⟨first, behind⟩ := List.forall_mem_cons.mp all
    rw [alter]
    split
    · exact List.forall_mem_cons.mpr ⟨⟨named, valued none⟩, all⟩
    · split
      · exact List.forall_mem_cons.mpr ⟨first, ih behind⟩
      · exact List.forall_mem_cons.mpr ⟨⟨first.1, valued _⟩, behind⟩

theorem map_alter {h : β → γ} (same : ∀ a b, less a b = less' (g a) (g b)) {f : Option β → β}
    {f' : Option γ → γ} (changed : ∀ v, h (f v) = f' (v.map h)) (key : κ) (l : List (κ × β)) :
    (alter less key f l).map (Prod.map g h) = alter less' (g key) f' (l.map (Prod.map g h)) := by
  induction l with
  | nil => simp [alter, changed]
  | cons head rest ih =>
    obtain ⟨k, v⟩ := head
    have seen (k : κ) (v : β) : Prod.map g h (k, v) = (g k, h v) := rfl
    rw [alter, List.map_cons, seen, alter, same, same]
    split
    · rw [List.map_cons, List.map_cons, seen, seen, changed]
      rfl
    · split
      · rw [List.map_cons, ih, seen]
      · rw [List.map_cons, seen, changed]
        rfl

theorem map_writes {h : β → γ} (same : ∀ a b, less a b = less' (g a) (g b)) {key : σ → κ}
    {f : σ → Option β → β} {f' : σ → Option γ → γ} (changed : ∀ s v, h (f s v) = f' s (v.map h))
    (stores : List σ) (l : List (κ × β)) :
    (stores.foldl (fun l s => alter less (key s) (f s) l) l).map (Prod.map g h) =
      stores.foldl (fun l s => alter less' (g (key s)) (f' s) l) (l.map (Prod.map g h)) := by
  induction stores generalizing l with
  | nil => rfl
  | cons s stores ih => rw [List.foldl_cons, List.foldl_cons, ih, map_alter same (changed s)]

theorem ordered_alter (order : Comparison less) (ordered : Ordered less l) (key : κ)
    (f : Option β → β) : Ordered less (alter less key f l) := by
  induction l with
  | nil => exact List.pairwise_singleton _ _
  | cons head rest ih =>
    obtain ⟨least, below⟩ := List.pairwise_cons.mp ordered
    rw [alter]
    split
    · rename_i before
      refine List.pairwise_cons.mpr ⟨List.forall_mem_cons.mpr ⟨before, fun kv listed => ?_⟩, ordered⟩
      exact order.trans before (least kv listed)
    · split
      · rename_i behind
        have above := @forall_alter _ _ less (fun k => less head.1 k = true) (fun _ => True) rest
          (fun kv listed => ⟨least kv listed, trivial⟩) key behind f fun _ => trivial
        exact List.pairwise_cons.mpr ⟨fun kv listed => (above kv listed).1, ih below⟩
      · exact List.pairwise_cons.mpr ⟨least, below⟩

theorem find_alter (order : Comparison less) (ordered : Ordered less l) (key : κ) (f : Option β → β)
    (other : κ) :
    find less (alter less key f l) other =
      if equivalent less key other = true then some (f (find less l key))
      else find less l other := by
  induction l with
  | nil => rw [alter, find_cons, find_nil, find_nil]
  | cons head rest ih =>
    obtain ⟨least, below⟩ := List.pairwise_cons.mp ordered
    rw [alter]
    split
    · rename_i before
      have absent : find less (head :: rest) key = none :=
        find_eq_none (List.forall_mem_cons.mpr
          ⟨before, fun kv listed => order.trans before (least kv listed)⟩)
      rw [find_cons, absent]
    · rename_i notBefore
      split
      · rename_i behind
        have apart := not_equivalent behind
        rw [find_cons, ih below, find_cons head rest key, find_cons head rest other, apart]
        by_cases asked : equivalent less key other = true
        · rw [equivalent_comm, order.equivalent_trans asked, equivalent_comm] at apart
          simp [asked, apart]
        · simp [asked]
      · rename_i notBehind
        have here : equivalent less head.1 key = true := by simp [equivalent, notBefore, notBehind]
        rw [find_cons, find_cons head rest key, find_cons head rest other,
          order.equivalent_trans here other]
        by_cases asked : equivalent less key other = true
        · simp [asked, here]
        · simp [asked]

section
variable {σ : Type} (order : Comparison less) (key : σ → κ) (f : σ → Option β → β)
include order

theorem ordered_writes {l : List (κ × β)} (ordered : Ordered less l) (stores : List σ) :
    Ordered less (stores.foldl (fun l s => alter less (key s) (f s) l) l) :=
  List.foldlRecOn stores _ ordered fun _ ordered s _ => ordered_alter order ordered (key s) (f s)

/-- What a lookup finds is what the writes at the equivalent keys have made. -/
theorem find_writes {l : List (κ × β)} (ordered : Ordered less l) (stores : List σ) (other : κ) :
    find less (stores.foldl (fun l s => alter less (key s) (f s) l) l) other =
      (stores.filter fun s => equivalent less (key s) other).foldl (fun v s => some (f s v))
        (find less l other) := by
  induction stores generalizing l with
  | nil => rfl
  | cons s stores ih =>
    rw [List.foldl_cons, ih (ordered_alter order ordered (key s) (f s)),
      find_alter order ordered, List.filter_cons]
    by_cases same : equivalent less (key s) other = true
    · rw [if_pos same, if_pos same, List.foldl_cons, find_congr order same]
    · rw [if_neg same, if_neg same]

end

theorem foldl_last (value : σ → β) (stores : List σ) (v : Option β) :
    stores.foldl (fun _ s => some (value s)) v = (stores.getLast?.map value).or v := by
  induction stores generalizing v with
  | nil => rfl
  | cons s stores ih =>
    rw [List.foldl_cons, ih, List.getLast?_cons]
    cases stores.getLast? with
    | none => rfl
    | some last => rfl

theorem find_assigned (order : Comparison less) (key : σ → κ) (value : σ → β) (stores : List σ)
    (other : κ) :
    find less (stores.foldl (fun l s => alter less (key s) (fun _ => value s) l) []) other =
      (stores.filter fun s => equivalent less (key s) other).getLast?.map value := by
  rw [find_writes order key (fun s _ => value s) List.Pairwise.nil, foldl_last, find_nil,
    Option.or_none]

end OrderedMap
