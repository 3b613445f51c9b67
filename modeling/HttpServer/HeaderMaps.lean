import HttpServer.RequestArgs

/-!
Maps of header fields. The map is ordered by a comparison that sees a name only
up to case, so it holds one entry for each such name, and the value of an entry
is the one that was written last.
-/
namespace HttpServer
open ComparatorSet OrderedMap

def iequalAscii (a b : Str) : Bool :=
  a.length = b.length &&
    (a.zip b).all fun xy => httpHeaderToupper xy.1 = httpHeaderToupper xy.2

theorem iequalAscii_iff (a b : Str) :
    iequalAscii a b = true ↔ a.map httpHeaderToupper = b.map httpHeaderToupper := by
  rw [iequalAscii, Bool.and_eq_true, decide_eq_true_eq]
  induction a generalizing b with
  | nil =>
    cases b with
    | nil => simp
    | cons y b => simp
  | cons x a ih =>
    cases b with
    | nil => simp
    | cons y b =>
      have tail := ih b
      simp only [List.length_cons, Nat.add_right_cancel_iff, List.zip_cons_cons, List.all_cons,
        Bool.and_eq_true, decide_eq_true_eq, List.map_cons, List.cons.injEq, ← tail]
      constructor
      · rintro ⟨long, first, rest⟩
        exact ⟨first, long, rest⟩
      · rintro ⟨first, long, rest⟩
        exact ⟨long, first, rest⟩

theorem comparatorLoop_equal_iff (op : Char → Nat) {x y : Str} (long : x.length = y.length) :
    (comparatorLoop op x y = false ∧ comparatorLoop op y x = false) ↔ x.map op = y.map op := by
  induction x generalizing y with
  | nil =>
    cases y with
    | nil => simp [comparatorLoop]
    | cons b y => simp at long
  | cons a x ih =>
    cases y with
    | nil => simp at long
    | cons b y =>
      have shorter : x.length = y.length := by simpa using long
      simp only [comparatorLoop, List.map_cons, List.cons.injEq, ← ih shorter]
      by_cases ab : op a < op b
      · simp [ab]
        omega
      · by_cases ba : op b < op a
        · simp [ab, ba]
          omega
        · simp [ab, ba]
          omega

theorem equivalent_lengthFirst_iff (op : Char → Nat) (x y : Str) :
    equivalent (fun x y : Str =>
      if x.length < y.length then true
      else if y.length < x.length then false else comparatorLoop op x y) x y = true ↔
      x.map op = y.map op := by
  simp only [equivalent, Bool.and_eq_true, Bool.not_eq_true']
  by_cases long : x.length = y.length
  · rw [if_neg (by omega), if_neg (by omega), if_neg (by omega), if_neg (by omega)]
    exact comparatorLoop_equal_iff op long
  · have apart : x.map op ≠ y.map op := fun same => long (by simpa using congrArg List.length same)
    rcases Nat.lt_or_gt_of_ne long with shorter | longer
    · simp [shorter, apart]
    · simp [longer, apart]

theorem comparison_header : Comparison headerComparator := comparison_lengthFirst httpHeaderToupper

theorem equivalent_header (x y : Str) : equivalent headerComparator x y = iequalAscii x y := by
  rw [Bool.eq_iff_iff, iequalAscii_iff]
  exact equivalent_lengthFirst_iff httpHeaderToupper x y

theorem unordered_iff (x y : Str) :
    headerComparator x y = false ∧ headerComparator y x = false ↔ iequalAscii x y = true := by
  rw [← equivalent_header, equivalent, Bool.and_eq_true, Bool.not_eq_true', Bool.not_eq_true']

theorem iequalAscii_trans {x y z : Str} (xy : iequalAscii x y = true) :
    iequalAscii x z = iequalAscii y z := by
  rw [Bool.eq_iff_iff, iequalAscii_iff, iequalAscii_iff, (iequalAscii_iff x y).mp xy]

namespace HeaderMap

def Sorted (map : HeaderMap) : Prop := map.Pairwise fun a b => headerComparator a.1 b.1 = true

theorem insertOrAssign_eq (key value : Str) (map : HeaderMap) :
    HeaderMap.insertOrAssign key value map = alter headerComparator key (fun _ => value) map := by
  induction map with
  | nil => rfl
  | cons head rest ih =>
    rw [HeaderMap.insertOrAssign, ih]
    rfl

theorem insertOrAssign_all {P Q : Str → Prop} {map : HeaderMap}
    (all : ∀ kv ∈ map, P kv.1 ∧ Q kv.2) {key value : Str} (named : P key) (valued : Q value) :
    ∀ kv ∈ HeaderMap.insertOrAssign key value map, P kv.1 ∧ Q kv.2 := by
  rw [insertOrAssign_eq]
  exact forall_alter all named fun _ => valued

def valueOf (map : HeaderMap) (name : Str) : Option Str :=
  (map.find? fun kv => iequalAscii kv.1 name).map (·.2)

theorem valueOf_cons (head : Str × Str) (rest : HeaderMap) (name : Str) :
    valueOf (head :: rest) name =
      if iequalAscii head.1 name = true then some head.2 else valueOf rest name := by
  cases same : iequalAscii head.1 name with
  | true => simp [valueOf, same]
  | false => simp [valueOf, same]

theorem valueOf_eq_find (map : HeaderMap) (name : Str) :
    map.valueOf name = OrderedMap.find headerComparator map name := by
  simp only [valueOf, OrderedMap.find, equivalent_header]

theorem sorted_assigned {σ : Type} (key value : σ → Str) (stores : List σ) :
    Sorted (stores.foldl (fun map s => HeaderMap.insertOrAssign (key s) (value s) map) []) := by
  simp only [insertOrAssign_eq]
  exact ordered_writes comparison_header key (fun s _ => value s) List.Pairwise.nil stores

theorem valueOf_assigned {σ : Type} (key value : σ → Str) (stores : List σ) (name : Str) :
    valueOf (stores.foldl (fun map s => HeaderMap.insertOrAssign (key s) (value s) map) []) name =
      (stores.filter fun s => iequalAscii (key s) name).getLast?.map value := by
  simp only [insertOrAssign_eq, valueOf_eq_find, ← equivalent_header]
  exact find_assigned comparison_header key value stores name

end HeaderMap

end HttpServer
