import HttpServer.Lib.SearchTree
import HttpServer.QueryArguments
import HttpServer.ResponseCookies

/-!
The comparators of the header and argument maps on bytes, as the macro
`COMPARATOR` computes them: through `size()` and `operator[]`, with a plain
`char` signed and the header fold unsigned. They are shown to be the comparisons
of names the rest of the model uses, whichever overload is called, and to make
lookups in a map of any shape find exactly what was stored.
-/
namespace HttpServer
open ComparatorSet OrderedMap SearchTree

namespace Comparators

abbrev Bytes := List UInt8

/-- The value of a plain `char`, which is signed. -/
def charValue (c : UInt8) : Int := c.toInt8.toInt

def httpHeaderToupper (c : UInt8) : Int :=
  if 97 ≤ charValue c ∧ charValue c ≤ 122 then charValue c - (97 - 65) else c.toNat

structure Operand where
  size : Nat
  get : Nat → UInt8

def comparatorFrom (op : UInt8 → Int) (x y : Operand) : Nat → Nat → Bool
  | _, 0 => false
  | n, left + 1 =>
    if op (x.get n) < op (y.get n) then true
    else if op (x.get n) > op (y.get n) then false
    else comparatorFrom op x y (n + 1) left

def comparator (op : UInt8 → Int) (x y : Operand) : Bool :=
  if x.size < y.size then true
  else if x.size > y.size then false
  else comparatorFrom op x y 0 x.size

structure StringView where
  memory : Bytes
  start : Nat
  size : Nat
  inside : start + size ≤ memory.length

def StringView.operand (v : StringView) : Operand := ⟨v.size, fun n => v.memory.getD (v.start + n) 0⟩

def StringView.bytes (v : StringView) : Bytes := (v.memory.drop v.start).take v.size

def stringOperand (s : Bytes) : Operand := ⟨s.length, fun n => s.getD n 0⟩

def viewOf (s : Bytes) : StringView := ⟨s, 0, s.length, Nat.le_of_eq (Nat.zero_add _)⟩

namespace HeaderComparator

def views (x y : StringView) : Bool := comparator httpHeaderToupper x.operand y.operand

def strings (x y : Bytes) : Bool := comparator httpHeaderToupper (stringOperand x) (stringOperand y)

end HeaderComparator

namespace ArgComparator

def views (x y : StringView) : Bool := comparator charValue x.operand y.operand

def strings (x y : Bytes) : Bool := views (viewOf x) (viewOf y)

def viewString (x : StringView) (y : Bytes) : Bool := views x (viewOf y)

def stringView (x : Bytes) (y : StringView) : Bool := views (viewOf x) y

end ArgComparator

/-- An argument of a comparator. A `std::pmr::string` converts to a view only. -/
inductive Key where
  | string (s : Bytes)
  | pmrString (s : Bytes)
  | view (v : StringView)

namespace Key

def bytes : Key → Bytes
  | string s => s
  | pmrString s => s
  | view v => v.bytes

def toView : Key → StringView
  | string s => viewOf s
  | pmrString s => viewOf s
  | view v => v

end Key

/-- `header_comparator` under overload resolution. -/
def headerLess : Key → Key → Bool
  | .string x, .string y => HeaderComparator.strings x y
  | x, y => HeaderComparator.views x.toView y.toView

def argLess : Key → Key → Bool
  | .string x, .string y => ArgComparator.strings x y
  | .string x, y => ArgComparator.stringView x y.toView
  | x, .string y => ArgComparator.viewString x.toView y
  | x, y => ArgComparator.views x.toView y.toView

-- The maps. The keys of `header_map` are `std::string`, those of the argument map
-- `std::pmr::string`.
def headerKeyLess (a b : Bytes) : Bool := headerLess (.string a) (.string b)

def argKeyLess (a b : Bytes) : Bool := argLess (.pmrString a) (.pmrString b)

def headerMapFind {β : Type} (m : SearchTree.Tree Bytes β) (key : Key) : Option β :=
  m.find (fun k => headerLess (.string k) key) fun k => headerLess key (.string k)

def argMapFind {β : Type} (m : SearchTree.Tree Bytes β) (key : Key) : Option β :=
  m.find (fun k => argLess (.pmrString k) key) fun k => argLess key (.pmrString k)

def headerMapFindView (m : SearchTree.Tree Bytes Bytes) (key : StringView) : Bytes :=
  (headerMapFind m (.view key)).getD []

def asciiUpper (c : UInt8) : UInt8 := if 97 ≤ c ∧ c ≤ 122 then c - 32 else c

/-- A lookup finds an entry if and only if the same key was written, and it finds
    what the writes at that key have made. -/
def LookupsExact {β : Type} (less : Bytes → Bytes → Bool)
    (find : SearchTree.Tree Bytes β → Key → Option β) (same : Bytes → Bytes → Bool) : Prop :=
  ∀ writes m key, Grown less writes m →
    ((find m key).isSome = true ↔ ∃ w ∈ writes, same w.1 key.bytes = true) ∧
    find m key = (writes.filter fun w => same w.1 key.bytes).foldl (fun v w => some (w.2 v)) none

def charOf (c : UInt8) : Char := Char.ofNat c.toNat

def text (b : Bytes) : Str := b.map charOf

theorem toNat_charOf (c : UInt8) : (charOf c).toNat = c.toNat := by
  have small := c.toNat_lt
  have valid : c.toNat.isValidChar := Or.inl (by omega)
  rw [charOf, Char.ofNat, dif_pos valid]
  rfl

theorem lowercase_charOf_iff (c : UInt8) :
    ('a' ≤ charOf c ∧ charOf c ≤ 'z') ↔ 97 ≤ c.toNat ∧ c.toNat ≤ 122 := by
  rw [← toNat_charOf]
  exact and_congr UInt32.le_iff_toNat_le UInt32.le_iff_toNat_le

theorem charValue_eq (c : UInt8) : charValue c + 128 = signedByte (charOf c) := by
  have value : charValue c = if 2 * c.toNat < 256 then (c.toNat : Int) else c.toNat - 256 :=
    BitVec.toInt_eq_toNat_cond c.toBitVec
  have small := c.toNat_lt
  rw [value, signedByte, toNat_charOf]
  split
  · omega
  · omega

theorem httpHeaderToupper_eq (c : UInt8) :
    httpHeaderToupper c + 0 = HttpServer.httpHeaderToupper (charOf c) := by
  have value := charValue_eq c
  have small := c.toNat_lt
  rw [signedByte, toNat_charOf] at value
  simp only [httpHeaderToupper, HttpServer.httpHeaderToupper, lowercase_charOf_iff, toNat_charOf]
  split
  · rw [if_pos (by omega)]
    omega
  · rw [if_neg (by omega)]
    omega

theorem toNat_asciiUpper (c : UInt8) :
    HttpServer.httpHeaderToupper (charOf c) = (asciiUpper c).toNat := by
  simp only [HttpServer.httpHeaderToupper, asciiUpper, lowercase_charOf_iff, toNat_charOf]
  by_cases lower : 97 ≤ c.toNat ∧ c.toNat ≤ 122
  · have range : 97 ≤ c ∧ c ≤ 122 := lower
    have room : (32 : UInt8) ≤ c := UInt8.le_trans (by decide) range.1
    rw [if_pos lower, if_pos range, UInt8.toNat_sub_of_le c 32 room]
    rfl
  · have range : ¬ (97 ≤ c ∧ c ≤ 122) := lower
    rw [if_neg lower, if_neg range]

def Operand.bytes (x : Operand) : Bytes := (List.range x.size).map x.get

theorem bytes_stringOperand (s : Bytes) : (stringOperand s).bytes = s := by
  refine List.ext_getElem (by simp [Operand.bytes, stringOperand]) fun i _ inside => ?_
  simp [Operand.bytes, stringOperand, inside]

theorem bytes_operand (v : StringView) : v.operand.bytes = v.bytes := by
  have inside := v.inside
  refine List.ext_getElem ?_ fun i first second => ?_
  · simp [Operand.bytes, StringView.operand, StringView.bytes]
    omega
  · simp [Operand.bytes, StringView.operand] at first
    have there : v.start + i < v.memory.length := by omega
    simp [Operand.bytes, StringView.operand, StringView.bytes, there]

variable {op : UInt8 → Int} {meant : Char → Nat} {k : Int} {m : SearchTree.Tree Bytes Bytes}

theorem comparatorFrom_eq (same : ∀ c, op c + k = meant (charOf c)) (x y : Operand) (n left : Nat) :
    comparatorFrom op x y n left = comparatorLoop meant (text ((List.range' n left).map x.get))
      (text ((List.range' n left).map y.get)) := by
  induction left generalizing n with
  | zero => rfl
  | succ left ih =>
    have first := same (x.get n)
    have second := same (y.get n)
    have less : op (x.get n) < op (y.get n) ↔ meant (charOf (x.get n)) < meant (charOf (y.get n)) := by
      omega
    have more : op (x.get n) > op (y.get n) ↔ meant (charOf (y.get n)) < meant (charOf (x.get n)) := by
      omega
    rw [comparatorFrom, List.range'_succ, ih]
    simp only [text, List.map_cons, comparatorLoop, less, more]

theorem comparator_eq (same : ∀ c, op c + k = meant (charOf c)) (x y : Operand) :
    comparator op x y =
      if (text x.bytes).length < (text y.bytes).length then true
      else if (text y.bytes).length < (text x.bytes).length then false
      else comparatorLoop meant (text x.bytes) (text y.bytes) := by
  have long (z : Operand) : (text z.bytes).length = z.size := by simp [text, Operand.bytes]
  rw [comparator, long, long, comparatorFrom_eq same]
  by_cases short : x.size < y.size
  · rw [if_pos short, if_pos short]
  · rw [if_neg short, if_neg short]
    by_cases longer : y.size < x.size
    · rw [if_pos longer, if_pos longer]
    · have equal : x.size = y.size := by omega
      rw [if_neg longer, if_neg longer, ← List.range_eq_range', Operand.bytes, Operand.bytes, equal]

theorem bytes_toView (x : Key) : x.toView.bytes = x.bytes := by
  have whole (s : Bytes) : (viewOf s).bytes = s := by simp [viewOf, StringView.bytes]
  cases x with
  | string s => exact whole s
  | pmrString s => exact whole s
  | view v => rfl

theorem headerStrings_eq (x y : Bytes) :
    HeaderComparator.strings x y = headerComparator (text x) (text y) := by
  rw [HeaderComparator.strings, comparator_eq httpHeaderToupper_eq, bytes_stringOperand,
    bytes_stringOperand]
  rfl

theorem headerLess_eq (x y : Key) :
    headerLess x y = headerComparator (text x.bytes) (text y.bytes) := by
  have viewed : HeaderComparator.views x.toView y.toView =
      headerComparator (text x.bytes) (text y.bytes) := by
    rw [HeaderComparator.views, comparator_eq httpHeaderToupper_eq, bytes_operand, bytes_operand,
      bytes_toView, bytes_toView]
    rfl
  cases x with
  | string a =>
    cases y with
    | string b => exact headerStrings_eq a b
    | pmrString b => exact viewed
    | view w => exact viewed
  | pmrString a => exact viewed
  | view v => exact viewed

theorem argLess_views (x y : Key) : argLess x y = ArgComparator.views x.toView y.toView := by
  cases x <;> cases y <;> rfl

theorem argLess_eq (x y : Key) : argLess x y = argComparator (text x.bytes) (text y.bytes) := by
  rw [argLess_views, ArgComparator.views, comparator_eq charValue_eq, bytes_operand, bytes_operand,
    bytes_toView, bytes_toView]
  rfl

theorem headerKeyLess_eq (a b : Bytes) :
    headerKeyLess a b = headerComparator (text a) (text b) :=
  headerLess_eq (.string a) (.string b)

theorem argKeyLess_eq (a b : Bytes) : argKeyLess a b = argComparator (text a) (text b) :=
  argLess_eq (.pmrString a) (.pmrString b)

theorem comparison_headerKeyLess : Comparison headerKeyLess := by
  rw [show headerKeyLess = fun a b => headerComparator (text a) (text b) from
    funext₂ headerKeyLess_eq]
  exact comparison_header.comap text

theorem comparison_argKeyLess : Comparison argKeyLess := by
  rw [show argKeyLess = fun a b => argComparator (text a) (text b) from funext₂ argKeyLess_eq]
  exact comparison_arg.comap text

theorem equivalent_headerKeyLess_iff (a b : Bytes) :
    equivalent headerKeyLess a b = true ↔ a.map asciiUpper = b.map asciiUpper := by
  have folded (s : Bytes) : (text s).map HttpServer.httpHeaderToupper =
      (s.map asciiUpper).map UInt8.toNat := by
    simp [text, toNat_asciiUpper]
  have injective : Function.Injective UInt8.toNat := fun c d same => UInt8.toNat_inj.mp same
  rw [equivalent, Bool.and_eq_true, Bool.not_eq_true', Bool.not_eq_true', headerKeyLess_eq,
    headerKeyLess_eq, unordered_iff, iequalAscii_iff, folded, folded,
    (List.map_injective_iff.mpr injective).eq_iff]

theorem equivalent_argKeyLess_iff (a b : Bytes) : equivalent argKeyLess a b = true ↔ a = b := by
  have injective : Function.Injective fun c => signedByte (charOf c) := by
    intro c d same
    have left := c.toNat_lt
    have right := d.toNat_lt
    simp only [signedByte, toNat_charOf] at same
    exact UInt8.toNat_inj.mp (by omega)
  have compared : equivalent argKeyLess a b = equivalent argComparator (text a) (text b) := by
    rw [equivalent, equivalent, argKeyLess_eq, argKeyLess_eq]
  have bytes (s : Bytes) : keyBytes (text s) = s.map fun c => signedByte (charOf c) := by
    simp [keyBytes, text]
  rw [compared, equivalent_arg_iff, bytes, bytes, (List.map_injective_iff.mpr injective).eq_iff]

variable {β : Type} {stores : List (Bytes × Bytes)}

theorem lookupsExact {less : Bytes → Bytes → Bool} {find : SearchTree.Tree Bytes β → Key → Option β}
    {same : Bytes → Bytes → Bool} (order : Comparison less)
    (reads : ∀ m key, find m key = m.find (less · key.bytes) (less key.bytes ·))
    (exact_ : ∀ a b, equivalent less a b = same a b) : LookupsExact less find same := by
  intro writes m key grown
  rw [reads, grown.isSome_find_iff order, grown.find_eq order]
  simp only [exact_, and_self]

theorem headerMapFind_eq (m : SearchTree.Tree Bytes β) (key : Key) :
    headerMapFind m key = m.find (headerKeyLess · key.bytes) (headerKeyLess key.bytes ·) := by
  simp only [headerMapFind, headerKeyLess, headerLess_eq, Key.bytes]

theorem argMapFind_eq (m : SearchTree.Tree Bytes β) (key : Key) :
    argMapFind m key = m.find (argKeyLess · key.bytes) (argKeyLess key.bytes ·) := by
  simp only [argMapFind, argKeyLess, argLess_eq, Key.bytes]

theorem lookups_headerMap (β : Type) : LookupsExact headerKeyLess (@headerMapFind β)
    fun a b => a.map asciiUpper = b.map asciiUpper := by
  refine lookupsExact comparison_headerKeyLess headerMapFind_eq fun a b => ?_
  rw [Bool.eq_iff_iff, equivalent_headerKeyLess_iff, decide_eq_true_eq]

theorem lookups_argMap (β : Type) :
    LookupsExact argKeyLess (@argMapFind β) fun a b => a = b := by
  refine lookupsExact comparison_argKeyLess argMapFind_eq fun a b => ?_
  rw [Bool.eq_iff_iff, equivalent_argKeyLess_iff, decide_eq_true_eq]

theorem argStrings_eq : ArgComparator.strings = argKeyLess := by
  funext x y
  exact (argLess_eq (.string x) (.string y)).trans (argKeyLess_eq x y).symm

theorem argStrings_totalOrder :
    IsStrictTotalOrder Bytes fun x y => ArgComparator.strings x y = true := by
  have weak := comparison_argKeyLess.isStrictWeakOrder
  rw [argStrings_eq]
  refine { weak with trichotomous := fun a b ab ba => ?_ }
  rw [Bool.not_eq_true] at ab ba
  exact (equivalent_argKeyLess_iff a b).mp (by rw [equivalent, ab, ba]; rfl)

theorem headerMap_refines (grown : Grown headerKeyLess (stores.map fun s => (s.1, fun _ => s.2)) m) :
    m.toList.map (Prod.map text text) =
      stores.foldl (fun h s => HeaderMap.insertOrAssign (text s.1) (text s.2) h) [] := by
  simp only [HeaderMap.insertOrAssign_eq]
  refine grown.map_toList comparison_headerKeyLess headerKeyLess_eq fun s value => ?_
  rfl

theorem argMap_refines {m : SearchTree.Tree Bytes (List Bytes)}
    (grown : Grown argKeyLess (stores.map fun s => (s.1, fun values => values.getD [] ++ [s.2])) m) :
    m.toList.map (Prod.map text (List.map text)) =
      stores.foldl (fun args s => ArgMap.appendArg (text s.1) (text s.2) args) [] := by
  simp only [ArgMap.appendArg_eq]
  refine grown.map_toList comparison_argKeyLess argKeyLess_eq fun s values => ?_
  cases values with
  | none => rfl
  | some values => simp

theorem headerMapFindView_refines
    (grown : Grown headerKeyLess (stores.map fun s => (s.1, fun _ => s.2)) m) (key : StringView) :
    text (headerMapFindView m key) = HttpServer.headerMapFindView
      (stores.foldl (fun h s => HeaderMap.insertOrAssign (text s.1) (text s.2) h) [])
      (text key.bytes) := by
  have walked : headerMapFind m (.view key) = OrderedMap.find headerKeyLess m.toList key.bytes := by
    rw [headerMapFind_eq, SearchTree.find_eq comparison_headerKeyLess
      (grown.toList_eq comparison_headerKeyLess).2]
    rfl
  rw [headerMapFindView, walked, ← headerMap_refines grown, headerMapFindView_eq,
    HeaderMap.valueOf_eq_find, find_map text headerKeyLess_eq]
  cases OrderedMap.find headerKeyLess m.toList key.bytes with
  | none => rfl
  | some value => rfl

/-- Both comparators are lawful, no overload differs from another, and lookups by
    any kind of key are exact. -/
theorem map_comparators_are_lawful :
    (IsStrictWeakOrder Bytes fun x y => HeaderComparator.strings x y = true) ∧
    (∀ x y, (HeaderComparator.strings x y = false ∧ HeaderComparator.strings y x = false) ↔
      x.map asciiUpper = y.map asciiUpper) ∧
    (IsStrictTotalOrder Bytes fun x y => ArgComparator.strings x y = true) ∧
    (∀ x y : Key, headerLess x y = HeaderComparator.strings x.bytes y.bytes) ∧
    (∀ x y : Key, argLess x y = ArgComparator.strings x.bytes y.bytes) ∧
    (∀ β, LookupsExact headerKeyLess (@headerMapFind β)
      fun a b => a.map asciiUpper = b.map asciiUpper) ∧
    ∀ β, LookupsExact argKeyLess (@argMapFind β) fun a b => a = b := by
  refine ⟨comparison_headerKeyLess.isStrictWeakOrder, fun x y => ?_, argStrings_totalOrder,
    fun x y => ?_, fun x y => ?_, lookups_headerMap, lookups_argMap⟩
  · rw [← equivalent_headerKeyLess_iff, equivalent, Bool.and_eq_true, Bool.not_eq_true',
      Bool.not_eq_true']
    rfl
  · rw [headerLess_eq, headerStrings_eq]
  · rw [argLess_eq]
    exact (argLess_eq (.string x.bytes) (.string y.bytes)).symm

theorem accept_found_by_view :
    let key : Bytes := [65, 99, 99, 101, 112, 116]
    let window : StringView := ⟨[120, 65, 67, 67, 69, 80, 84, 120], 1, 6, by decide⟩
    (headerMapFind (SearchTree.Tree.leaf.alter headerKeyLess key fun _ => 1)
      (.view window)).isSome = true :=
  (map_comparators_are_lawful.2.2.2.2.2.1 Nat _ _ _ (.write .empty _ _ rfl)).1.mpr
    ⟨_, List.mem_singleton_self _, by decide⟩

end Comparators

end HttpServer
