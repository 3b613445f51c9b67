import HttpServer.Lib.SearchTree

/-!
An ordered set as a search tree of any shape. Its operations walk down the tree by
the comparison alone, and nothing is assumed about the comparison: where it does
not order the keys, what an operation does depends on the shape. A key fits a list
when the keys below it come first and those above it last. Then every shape gives
one answer, the one that equivalence of keys suggests.
-/
namespace OrderedSet
open ComparatorSet SearchTree
variable {α : Type}

abbrev SetTree (α : Type) := Tree α Unit

def keys (t : SetTree α) : List α := t.toList.map Prod.fst

/-- A walk that turns right at the keys with `right`: how many keys it ends behind. -/
def position (right : α → Bool) : SetTree α → Nat
  | .leaf => 0
  | .node left k _ rest =>
    if right k then (keys left).length + 1 + position right rest else position right left

section
variable (less : α → α → Bool) (t : SetTree α) (key : α)

def lowerBound : Nat := position (less · key) t

def upperBound : Nat := position (fun e => !less key e) t

def find : Option (Nat × α) :=
  ((keys t)[lowerBound less t key]?).bind fun e =>
    if less key e then none else some (lowerBound less t key, e)

def count : Bool := (find less t key).isSome

/-- The key is compared with the one that it would stand behind. -/
def insert : List α :=
  let place := upperBound less t key
  if place = 0 ∨ ((keys t)[place - 1]?).any (less · key) then
    (keys t).take place ++ key :: (keys t).drop place
  else keys t

end

section
variable (less : α → α → Bool) (key : α)

def equalRange : SetTree α → Nat × Nat
  | .leaf => (0, 0)
  | .node left k _ rest =>
    if less k key then
      let range := equalRange rest
      ((keys left).length + 1 + range.1, (keys left).length + 1 + range.2)
    else if less key k then equalRange left
    else (lowerBound less left key, (keys left).length + 1 + upperBound less rest key)

def erase (t : SetTree α) : List α :=
  (keys t).take (equalRange less key t).1 ++ (keys t).drop (equalRange less key t).2

end

/-- How a tree is balanced after it has changed. -/
structure Shape (α : Type) where
  build : List α → SetTree α
  keys_build : ∀ l, keys (build l) = l

def spine : List α → SetTree α
  | [] => .leaf
  | k :: l => .node .leaf k () (spine l)

theorem keys_spine (l : List α) : keys (spine l) = l := by
  induction l with
  | nil => rfl
  | cons k l ih => exact congrArg (k :: ·) ih

def Shape.spine : Shape α := ⟨OrderedSet.spine, keys_spine⟩

theorem keys_node (left rest : SetTree α) (k : α) :
    keys (.node left k () rest) = keys left ++ k :: keys rest := by
  simp [keys, Tree.toList]

abbrev Leading (p : α → Bool) (l : List α) : Prop := l.Pairwise fun a b => p b = true → p a = true

section
variable {p : α → Bool} {l : List α}

theorem countP_of_behind {a : α} (stops : p a = false) (behind : ∀ b ∈ l, p b = true → p a = true) :
    l.countP p = 0 := by
  rw [List.countP_eq_zero]
  intro b listed here
  rw [behind b listed here] at stops
  cases stops

theorem countP_split (leading : Leading p l) :
    l.take (l.countP p) = l.filter p ∧ l.drop (l.countP p) = l.filter fun e => !p e := by
  induction l with
  | nil => exact ⟨rfl, rfl⟩
  | cons a l ih =>
    obtain ⟨behind, later⟩ := List.pairwise_cons.mp leading
    cases here : p a with
    | true => simp [here, ih later]
    | false =>
      have none_ : (a :: l).countP p = 0 := by
        rw [List.countP_cons_of_neg (by simp [here]), countP_of_behind here behind]
      have outside := List.countP_eq_zero.mp none_
      rw [none_]
      refine ⟨(List.filter_eq_nil_iff.mpr outside).symm, (List.filter_eq_self.mpr ?_).symm⟩
      exact fun e listed => by simpa using outside e listed

end

theorem position_eq {right : α → Bool} {t : SetTree α} (leading : Leading right (keys t)) :
    position right t = (keys t).countP right := by
  induction t with
  | leaf => rfl
  | node left k v rest ihLeft ihRest =>
    rw [keys_node] at leading ⊢
    obtain ⟨inLeft, inRest, across⟩ := List.pairwise_append.mp leading
    obtain ⟨behind, later⟩ := List.pairwise_cons.mp inRest
    rw [position, List.countP_append]
    cases here : right k with
    | true =>
      have all_left : (keys left).countP right = (keys left).length :=
        List.countP_eq_length.mpr fun e listed => across e listed k List.mem_cons_self here
      rw [if_pos rfl, ihRest later, List.countP_cons_of_pos here, all_left]
      omega
    | false =>
      rw [if_neg Bool.false_ne_true, ihLeft inLeft, List.countP_cons_of_neg (by simp [here]),
        countP_of_behind here behind, Nat.add_zero]

/-- The keys below come first and those above come last. -/
structure Fits (less : α → α → Bool) (l : List α) (key : α) : Prop where
  below : l.Pairwise fun a b => less b key = true → less a key = true
  above : l.Pairwise fun a b => less key a = true → less key b = true

instance decidableFits (less : α → α → Bool) (l : List α) (key : α) : Decidable (Fits less l key) :=
  decidable_of_iff ((l.Pairwise fun a b => less b key = true → less a key = true) ∧
    l.Pairwise fun a b => less key a = true → less key b = true)
    ⟨fun both => ⟨both.1, both.2⟩, fun fits => ⟨fits.below, fits.above⟩⟩

section
variable {less : α → α → Bool} {t : SetTree α} {l : List α} {key : α}

theorem Fits.leading (fits : Fits less l key) : Leading (fun e => !less key e) l :=
  fits.above.imp fun {a b} mono later => by
    cases here : less key a with
    | false => simp [here]
    | true => simp [mono here] at later

theorem Fits.sublist {part : List α} (fits : Fits less l key) (within : part.Sublist l) :
    Fits less part key := ⟨fits.below.sublist within, fits.above.sublist within⟩

theorem fits_of_sorted (sorted : l.Pairwise fun a b => less a b = true)
    (below : ∀ a ∈ l, ∀ b ∈ l, less a b = true → less b key = true → less a key = true)
    (above : ∀ a ∈ l, ∀ b ∈ l, less key a = true → less a b = true → less key b = true) :
    Fits less l key where
  below := sorted.imp_of_mem fun {a b} inA inB ab => below a inA b inB ab
  above := sorted.imp_of_mem fun {a b} inA inB ab before => above a inA b inB before ab

theorem find_some {i : Nat} {e : α} (fits : Fits less (keys t) key)
    (found : find less t key = some (i, e)) :
    equivalent less e key = true ∧
      ∃ front back, keys t = front ++ e :: back ∧ (keys t).eraseIdx i = front ++ back := by
  obtain ⟨e', here, same⟩ := Option.bind_eq_some_iff.mp found
  split at same
  · cases same
  · rename_i above
    cases same
    constructor
    · have listed : e ∈ (keys t).drop (lowerBound less t key) :=
        List.mem_of_getElem? (i := 0) (by simpa using here)
      rw [lowerBound, position_eq fits.below, (countP_split fits.below).2] at listed
      simpa [equivalent, above] using (List.mem_filter.mp listed).2
    · obtain ⟨bound, rfl⟩ := List.getElem?_eq_some_iff.mp here
      refine ⟨(keys t).take (lowerBound less t key), (keys t).drop (lowerBound less t key + 1), ?_,
        List.eraseIdx_eq_take_drop_succ ..⟩
      rw [List.getElem_cons_drop, List.take_append_drop]

theorem count_iff (fits : Fits less (keys t) key) :
    count less t key = true ↔ ∃ e ∈ keys t, equivalent less e key = true := by
  constructor
  · intro counted
    obtain ⟨⟨i, e⟩, found⟩ := Option.isSome_iff_exists.mp counted
    obtain ⟨same, front, back, split, -⟩ := find_some fits found
    exact ⟨e, by simp [split], same⟩
  · rintro ⟨e, listed, same⟩
    obtain ⟨below, above⟩ : less e key = false ∧ less key e = false := by
      simpa [equivalent] using same
    -- the walk stops at the first key that is not below, which is not above `e`
    have behind : e ∈ (keys t).drop (lowerBound less t key) := by
      rw [lowerBound, position_eq fits.below, (countP_split fits.below).2]
      exact List.mem_filter.mpr ⟨listed, by simp [below]⟩
    have ordered := fits.above.drop (i := lowerBound less t key)
    cases rest : (keys t).drop (lowerBound less t key) with
    | nil => simp [rest] at behind
    | cons first rest' =>
      have here : (keys t)[lowerBound less t key]? = some first := by
        rw [← List.head?_drop, rest]
        rfl
      have stops : less key first = false := by
        rw [rest] at behind ordered
        rcases List.mem_cons.mp behind with rfl | later
        · exact above
        · cases beyond : less key first with
          | false => rfl
          | true => rw [(List.pairwise_cons.mp ordered).1 e later beyond] at above; cases above
      rw [count, find, here, Option.bind_some, stops]
      rfl

theorem place_split (fits : Fits less (keys t) key) :
    ∃ front back, keys t = front ++ back ∧ upperBound less t key = front.length ∧
      (∀ e ∈ front, less key e = false) ∧ ∀ e ∈ back, less key e = true := by
  refine ⟨(keys t).take (upperBound less t key), (keys t).drop (upperBound less t key),
    (List.take_append_drop ..).symm, ?_⟩
  rw [upperBound, position_eq fits.leading]
  refine ⟨(List.length_take_of_le List.countP_le_length).symm, ?_, ?_⟩
  · intro e listed
    rw [(countP_split fits.leading).1] at listed
    simpa using (List.mem_filter.mp listed).2
  · intro e listed
    rw [(countP_split fits.leading).2] at listed
    simpa using (List.mem_filter.mp listed).2

theorem insert_present (fits : Fits less (keys t) key) {e : α} (listed : e ∈ keys t)
    (same : equivalent less e key = true) : insert less t key = keys t := by
  obtain ⟨below, above⟩ : less e key = false ∧ less key e = false := by
    simpa [equivalent] using same
  obtain ⟨front, back, split, place, -, behind⟩ := place_split fits
  have inFront : e ∈ front := by
    rw [split] at listed
    refine (List.mem_append.mp listed).resolve_right fun late => ?_
    rw [behind e late] at above
    cases above
  rcases List.eq_nil_or_concat' front with rfl | ⟨init, last, rfl⟩
  · cases inFront
  · have stops : less last key = false := by
      cases before : less last key with
      | false => rfl
      | true =>
        have ordered := fits.below
        rw [split] at ordered
        have ordered := (List.pairwise_append.mp (List.pairwise_append.mp ordered).1).2.2
        rcases List.mem_append.mp inFront with early | here
        · rw [ordered e early last (by simp) before] at below
          cases below
        · rw [List.mem_singleton.mp here, before] at below
          cases below
    rw [insert, place, if_neg]
    rw [split]
    simp [stops]

theorem insert_absent (fits : Fits less (keys t) key)
    (absent : ∀ e ∈ keys t, equivalent less e key = false) :
    ∃ front back, keys t = front ++ back ∧ insert less t key = front ++ key :: back ∧
      (∀ e ∈ front, less e key = true) ∧ ∀ e ∈ back, less key e = true := by
  obtain ⟨front, back, split, place, before, behind⟩ := place_split fits
  have below : ∀ e ∈ front, less e key = true := by
    intro e listed
    have apart := absent e (by rw [split]; exact List.mem_append_left _ listed)
    simpa [equivalent, before e listed] using apart
  refine ⟨front, back, split, ?_, below, behind⟩
  rw [insert, place, if_pos, split, List.take_left, List.drop_left]
  rcases List.eq_nil_or_concat' front with rfl | ⟨init, last, rfl⟩
  · exact Or.inl rfl
  · have here : less last key = true := below last (by simp)
    rw [split]
    simp [here]

theorem mem_insert_absent (fits : Fits less (keys t) key)
    (absent : ∀ e ∈ keys t, equivalent less e key = false) (e : α) :
    e ∈ insert less t key ↔ e = key ∨ e ∈ keys t := by
  obtain ⟨front, back, split, placed, -, -⟩ := insert_absent fits absent
  rw [placed, split, List.mem_append, List.mem_cons, List.mem_append, or_left_comm]

theorem sorted_insert_absent (fits : Fits less (keys t) key)
    (absent : ∀ e ∈ keys t, equivalent less e key = false)
    (sorted : (keys t).Pairwise fun a b => less a b = true) :
    (insert less t key).Pairwise fun a b => less a b = true := by
  obtain ⟨front, back, split, placed, below, above⟩ := insert_absent fits absent
  rw [split] at sorted
  obtain ⟨inFront, inBack, across⟩ := List.pairwise_append.mp sorted
  rw [placed, List.pairwise_append, List.pairwise_cons]
  refine ⟨inFront, ⟨above, inBack⟩, ?_⟩
  intro a listed b here
  rcases List.mem_cons.mp here with rfl | later
  · exact below a listed
  · exact across a listed b later

theorem equalRange_eq (asymm : ∀ a b, less a b = true → less b a = false)
    (fits : Fits less (keys t) key) : equalRange less key t =
      ((keys t).countP (less · key), (keys t).countP fun e => !less key e) := by
  induction t with
  | leaf => rfl
  | node left k v rest ihLeft ihRest =>
    rw [keys_node] at fits ⊢
    have inLeft := fits.sublist (List.sublist_append_left ..)
    have inRest := fits.sublist ((List.sublist_cons_self ..).trans (List.sublist_append_right ..))
    obtain ⟨-, lower, lowerAcross⟩ := List.pairwise_append.mp fits.below
    obtain ⟨-, upper, upperAcross⟩ := List.pairwise_append.mp fits.leading
    rw [equalRange, List.countP_append, List.countP_append]
    cases below : less k key with
    | true =>
      have under := asymm k key below
      have allLower : (keys left).countP (less · key) = (keys left).length :=
        List.countP_eq_length.mpr fun e listed => lowerAcross e listed k (by simp) below
      have allUpper : (keys left).countP (fun e => !less key e) = (keys left).length :=
        List.countP_eq_length.mpr fun e listed => upperAcross e listed k (by simp) (by simp [under])
      rw [if_pos rfl, ihRest inRest, allLower, allUpper]
      simp [below, under]
      omega
    | false =>
      have noneLower : (keys rest).countP (less · key) = 0 :=
        countP_of_behind below (List.pairwise_cons.mp lower).1
      rw [if_neg Bool.false_ne_true]
      cases above : less key k with
      | true =>
        have noneUpper : (keys rest).countP (fun e => !less key e) = 0 :=
          countP_of_behind (by simp [above]) (List.pairwise_cons.mp upper).1
        rw [if_pos rfl, ihLeft inLeft]
        simp [below, above, noneLower, noneUpper]
      | false =>
        have allUpper : (keys left).countP (fun e => !less key e) = (keys left).length :=
          List.countP_eq_length.mpr fun e listed => upperAcross e listed k (by simp) (by simp [above])
        rw [if_neg Bool.false_ne_true, lowerBound, position_eq inLeft.below, upperBound,
          position_eq inRest.leading, allUpper]
        simp [below, above, noneLower]
        omega

theorem erase_eq (asymm : ∀ a b, less a b = true → less b a = false)
    (fits : Fits less (keys t) key) :
    erase less key t = (keys t).filter fun e => !equivalent less e key := by
  rw [erase, equalRange_eq asymm fits]
  dsimp only
  generalize keys t = l at fits
  induction l with
  | nil => rfl
  | cons a l ih =>
    cases below : less a key with
    | true =>
      have under := asymm a key below
      have kept := ih (fits.sublist (List.sublist_cons_self ..))
      rw [List.countP_cons_of_pos (p := (less · key)) below, List.countP_cons_of_pos (by simp [under]),
        List.take_succ_cons, List.drop_succ_cons, List.cons_append, kept,
        List.filter_cons_of_pos (by simp [equivalent, below])]
    | false =>
      have none_ : (a :: l).countP (less · key) = 0 := by
        rw [List.countP_cons_of_neg (by simp [below]),
          countP_of_behind (p := (less · key)) below (List.pairwise_cons.mp fits.below).1]
      rw [none_, List.take_zero, List.nil_append, (countP_split fits.leading).2]
      apply List.filter_congr
      intro e listed
      have notBelow := List.countP_eq_zero.mp none_ e listed
      simp [equivalent, notBelow]

end
end OrderedSet
