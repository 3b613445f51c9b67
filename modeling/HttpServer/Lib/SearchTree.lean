import HttpServer.Lib.OrderedMap

/-!
The search tree behind an ordered map. A lookup walks down by the comparison
alone, and a write puts its entry where the walk ends. The tree may be
rebalanced after a write, which keeps its entries in order. Whatever shapes it
takes, it answers as the list of its entries does, so a lookup finds what the
writes at the equivalent keys have made.
-/
namespace SearchTree
open ComparatorSet OrderedMap
variable {κ β : Type}

inductive Tree (κ β : Type) where
  | leaf : Tree κ β
  | node : Tree κ β → κ → β → Tree κ β → Tree κ β

namespace Tree

def toList : Tree κ β → List (κ × β)
  | leaf => []
  | node left k v right => left.toList ++ (k, v) :: right.toList

/-- The first entry that is not below what is looked for; `best` is the last such
    entry on the way down. -/
def lowerBound (below : κ → Bool) : Tree κ β → Option (κ × β) → Option (κ × β)
  | leaf, best => best
  | node left k v right, best =>
    if below k then right.lowerBound below best else left.lowerBound below (some (k, v))

/-- A lookup is given the keys below and above the one it looks for, so that one
    may be of another type. -/
def find (below above : κ → Bool) (t : Tree κ β) : Option β :=
  (t.lowerBound below none).bind fun kv => if above kv.1 then none else some kv.2

def alter (less : κ → κ → Bool) (key : κ) (f : Option β → β) : Tree κ β → Tree κ β
  | leaf => node leaf key (f none) leaf
  | node left k v right =>
    if less key k then node (left.alter less key f) k v right
    else if less k key then node left k v (right.alter less key f)
    else node left k (f (some v)) right

theorem lowerBound_eq {below : κ → Bool} {t : Tree κ β}
    (down : t.toList.Pairwise fun a b => below b.1 = true → below a.1 = true)
    (best : Option (κ × β)) :
    t.lowerBound below best = (t.toList.find? fun kv => !below kv.1).or best := by
  induction t generalizing best with
  | leaf => rfl
  | node left k v right ihLeft ihRight =>
    obtain ⟨inLeft, inRight, across⟩ := List.pairwise_append.mp down
    rw [lowerBound, toList, List.find?_append, List.find?_cons]
    cases here : below k with
    | true =>
      have none_left : left.toList.find? (fun kv => !below kv.1) = none := by
        rw [List.find?_eq_none]
        intro kv listed
        simp [across kv listed (k, v) List.mem_cons_self here]
      rw [if_pos rfl, ihRight (List.pairwise_cons.mp inRight).2, none_left]
      rfl
    | false =>
      rw [if_neg Bool.false_ne_true, ihLeft inLeft]
      cases left.toList.find? fun kv => !below kv.1 with
      | none => rfl
      | some kv => rfl

end Tree

variable {less : κ → κ → Bool}

theorem find_of_first (order : Comparison less) {l : List (κ × β)} (ordered : Ordered less l)
    (key : κ) : ((l.find? fun kv => !less kv.1 key).bind fun kv =>
      if less key kv.1 then none else some kv.2) = OrderedMap.find less l key := by
  induction l with
  | nil => rfl
  | cons head rest ih =>
    obtain ⟨least, later⟩ := List.pairwise_cons.mp ordered
    rw [find_cons, List.find?_cons]
    cases below : less head.1 key with
    | true => simpa [not_equivalent below] using ih later
    | false =>
      cases above : less key head.1 with
      | true =>
        have behind : OrderedMap.find less rest key = none :=
          find_eq_none fun kv listed => order.trans above (least kv listed)
        simp [equivalent, above, behind]
      | false => simp [equivalent, above, below]

variable {t : Tree κ β} {writes : List (κ × (Option β → β))}

theorem find_eq (order : Comparison less) (ordered : Ordered less t.toList) (key : κ) :
    t.find (less · key) (less key ·) = OrderedMap.find less t.toList key := by
  have down : t.toList.Pairwise fun a b => less b.1 key = true → less a.1 key = true :=
    ordered.imp fun ab bKey => order.trans ab bKey
  rw [Tree.find, Tree.lowerBound_eq down, Option.or_none, find_of_first order ordered]

theorem alter_append_before {key : κ} {e : κ × β} (before : less key e.1 = true)
    (f : Option β → β) (l rest : List (κ × β)) :
    OrderedMap.alter less key f (l ++ e :: rest) = OrderedMap.alter less key f l ++ e :: rest := by
  induction l with
  | nil => simp [OrderedMap.alter, before]
  | cons head l ih =>
    rw [List.cons_append, OrderedMap.alter, OrderedMap.alter, ih]
    split
    · rfl
    · split
      · rfl
      · rfl

theorem alter_append_behind (order : Comparison less) {key : κ} {l : List (κ × β)}
    (below : ∀ kv ∈ l, less kv.1 key = true) (f : Option β → β) (rest : List (κ × β)) :
    OrderedMap.alter less key f (l ++ rest) = l ++ OrderedMap.alter less key f rest := by
  induction l with
  | nil => rfl
  | cons head l ih =>
    obtain ⟨first, later⟩ := List.forall_mem_cons.mp below
    rw [List.cons_append, OrderedMap.alter, order.asymm _ _ first, first, ih later]
    rfl

theorem toList_alter (order : Comparison less) (ordered : Ordered less t.toList) (key : κ)
    (f : Option β → β) : (t.alter less key f).toList = OrderedMap.alter less key f t.toList := by
  induction t with
  | leaf => rfl
  | node left k v right ihLeft ihRight =>
    obtain ⟨inLeft, inRight, across⟩ := List.pairwise_append.mp ordered
    rw [Tree.alter, Tree.toList]
    cases before : less key k with
    | true => rw [if_pos rfl, alter_append_before before, Tree.toList, ihLeft inLeft]
    | false =>
      have below : ∀ kv ∈ left.toList, less kv.1 key = true := by
        intro kv listed
        have under := across kv listed (k, v) List.mem_cons_self
        exact (order.between kv.1 key k under).resolve_right (by simp [before])
      rw [if_neg Bool.false_ne_true, alter_append_behind order below, OrderedMap.alter, before,
        if_neg Bool.false_ne_true]
      cases behind : less k key with
      | true =>
        rw [if_pos rfl, if_pos rfl, Tree.toList, ihRight (List.pairwise_cons.mp inRight).2]
      | false =>
        rw [if_neg Bool.false_ne_true, if_neg Bool.false_ne_true, Tree.toList]

/-- The trees a map can have after these writes, rebalanced in any way. -/
inductive Grown (less : κ → κ → Bool) : List (κ × (Option β → β)) → Tree κ β → Prop where
  | empty : Grown less [] .leaf
  | write {writes : List (κ × (Option β → β))} {t t' : Tree κ β} (grown : Grown less writes t)
      (key : κ) (f : Option β → β) (rebalanced : t'.toList = (t.alter less key f).toList) :
      Grown less (writes ++ [(key, f)]) t'

theorem Grown.toList_eq (order : Comparison less) (grown : Grown less writes t) :
    t.toList = writes.foldl (fun l w => OrderedMap.alter less w.1 w.2 l) [] ∧
      Ordered less t.toList := by
  induction grown with
  | empty => exact ⟨rfl, List.Pairwise.nil⟩
  | write _ key f rebalanced ih =>
    obtain ⟨same, ordered⟩ := ih
    rw [rebalanced, toList_alter order ordered, List.foldl_append, ← same]
    exact ⟨rfl, ordered_alter order ordered key f⟩

theorem Grown.map_toList (order : Comparison less) {σ ι γ : Type} {less' : ι → ι → Bool} {g : κ → ι}
    {h : β → γ} (same : ∀ a b, less a b = less' (g a) (g b)) {key : σ → κ} {f : σ → Option β → β}
    {f' : σ → Option γ → γ} (changed : ∀ s v, h (f s v) = f' s (v.map h)) {stores : List σ}
    (grown : Grown less (stores.map fun s => (key s, f s)) t) :
    t.toList.map (Prod.map g h) =
      stores.foldl (fun l s => OrderedMap.alter less' (g (key s)) (f' s) l) [] := by
  rw [(grown.toList_eq order).1, List.foldl_map, map_writes same changed]
  rfl

theorem Grown.find_eq (order : Comparison less) (grown : Grown less writes t) (key : κ) :
    t.find (less · key) (less key ·) =
      (writes.filter fun w => equivalent less w.1 key).foldl (fun v w => some (w.2 v)) none := by
  obtain ⟨written, ordered⟩ := grown.toList_eq order
  rw [SearchTree.find_eq order ordered, written,
    find_writes order Prod.fst Prod.snd List.Pairwise.nil, find_nil]

theorem isSome_foldl_writes (writes : List (κ × (Option β → β))) (v : Option β) :
    (writes.foldl (fun v w => some (w.2 v)) v).isSome = true ↔ writes ≠ [] ∨ v.isSome = true := by
  induction writes generalizing v with
  | nil => simp
  | cons w writes ih => simp [ih]

theorem Grown.isSome_find_iff (order : Comparison less) (grown : Grown less writes t) (key : κ) :
    (t.find (less · key) (less key ·)).isSome = true ↔
      ∃ w ∈ writes, equivalent less w.1 key = true := by
  rw [grown.find_eq order, isSome_foldl_writes]
  simp

end SearchTree
