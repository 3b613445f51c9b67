import HttpServer.IpReading

/-!
The numbers inside an address text. On a text of digits `strtol` reads all of it
and its positional value; a group of up to four hexadecimal digits fills two
octets and a dotted quad of decimal numbers four.
-/
namespace HttpServer
open Fields

def numeral (base : Nat) (text : Str) : Nat :=
  text.foldl (fun n c => base * n + (digitValue base c).getD 0) 0

def isHexDigit (c : Char) : Bool :=
  c.isDigit || (decide ('a' ≤ c) && decide (c ≤ 'f')) || (decide ('A' ≤ c) && decide (c ≤ 'F'))

def HexGroup (part : Str) : Prop := part ≠ [] ∧ part.length ≤ 4 ∧ ∀ c ∈ part, isHexDigit c = true

def DecimalOctet (part : Str) : Prop :=
  part ≠ [] ∧ (∀ c ∈ part, c.isDigit = true) ∧ numeral 10 part ≤ 255

instance decidableHexGroup (part : Str) : Decidable (HexGroup part) :=
  @instDecidableAnd _ _ _ (@instDecidableAnd _ _ _
    (List.decidableBAll (fun c => isHexDigit c = true) part))

instance decidableDecimalOctet (part : Str) : Decidable (DecimalOctet part) :=
  @instDecidableAnd _ _ _ (@instDecidableAnd _ _
    (List.decidableBAll (fun c => c.isDigit = true) part) _)

def groupOctets (part : Str) : List UInt8 :=
  [UInt8.ofNat (numeral 16 part / 256), UInt8.ofNat (numeral 16 part % 256)]

def decimalOctet (part : Str) : UInt8 := UInt8.ofNat (numeral 10 part)

theorem isDigit_iff (c : Char) : c.isDigit = true ↔ 48 ≤ c.toNat ∧ c.toNat ≤ 57 := by
  simp only [Char.isDigit, Bool.and_eq_true, decide_eq_true_eq, ge_iff_le]
  exact Iff.rfl

theorem isHexDigit_iff (c : Char) :
    isHexDigit c = true ↔ (48 ≤ c.toNat ∧ c.toNat ≤ 57) ∨ (97 ≤ c.toNat ∧ c.toNat ≤ 102) ∨
      (65 ≤ c.toNat ∧ c.toNat ≤ 70) := by
  simp only [isHexDigit, Bool.or_eq_true, Bool.and_eq_true, decide_eq_true_eq, isDigit_iff, or_assoc]
  exact Iff.rfl

theorem hexDigitValue_toNat (c : Char) :
    hexDigitValue c =
      if 48 ≤ c.toNat ∧ c.toNat ≤ 57 then some (c.toNat - 48)
      else if 97 ≤ c.toNat ∧ c.toNat ≤ 102 then some (c.toNat - 97 + 10)
      else if 65 ≤ c.toNat ∧ c.toNat ≤ 70 then some (c.toNat - 65 + 10)
      else none := by
  have order : ∀ a b : Char, a ≤ b ↔ a.toNat ≤ b.toNat := fun a b => Iff.rfl
  simp only [hexDigitValue, order]
  rfl

variable {text part : Str} {c : Char}

theorem digitValue_lt {base d : Nat} (digit : digitValue base c = some d) : d < base := by
  unfold digitValue at digit
  split at digit
  · split at digit
    · cases digit
      assumption
    · cases digit
  · cases digit

theorem digitValue_ten (c : Char) : (digitValue 10 c).isSome = c.isDigit := by
  rw [Bool.eq_iff_iff, isDigit_iff, digitValue, hexDigitValue_toNat]
  split
  · rename_i d value
    split at value
    · rename_i digit
      cases value
      rw [if_pos (by omega)]
      simp [digit]
    · rename_i other
      have large : 10 ≤ d := by
        split at value
        · cases value
          omega
        · split at value
          · cases value
            omega
          · cases value
      rw [if_neg (by omega)]
      simpa using other
  · rename_i unknown
    split at unknown
    · cases unknown
    · rename_i other
      simpa using other

theorem digitValue_sixteen (c : Char) : (digitValue 16 c).isSome = isHexDigit c := by
  rw [Bool.eq_iff_iff, isHexDigit_iff, digitValue, hexDigitValue_toNat]
  split
  · rename_i d value
    split at value
    · rename_i digit
      cases value
      rw [if_pos (by omega)]
      simp [digit]
    · split at value
      · rename_i lower
        cases value
        rw [if_pos (by omega)]
        simp [lower]
      · split at value
        · rename_i upper
          cases value
          rw [if_pos (by omega)]
          simp [upper]
        · cases value
  · rename_i unknown
    split at unknown
    · cases unknown
    · split at unknown
      · cases unknown
      · split at unknown
        · cases unknown
        · rename_i digit lower upper
          simp [digit, lower, upper]

theorem isHexDigit_of_isDigit (digit : c.isDigit = true) : isHexDigit c = true := by
  rw [isHexDigit, digit]
  rfl

def markChars : Str := [' ', '\t', '\n', '\x0b', '\x0c', '\r', '+', '-', 'x', 'X']

theorem not_mark_of_isHexDigit (digit : isHexDigit c = true) : c ∉ markChars := by
  have none_ : (markChars.all fun c => !isHexDigit c) = true := rfl
  intro mark
  have other := List.all_eq_true.mp none_ c mark
  rw [digit] at other
  cases other

theorem dropWhile_isSpace (plain : ∀ c ∈ text, c ∉ markChars) : text.dropWhile isSpace = text := by
  cases text with
  | nil => rfl
  | cons c rest =>
    have mark := plain c List.mem_cons_self
    have visible : isSpace c = false := by
      simp only [markChars, List.mem_cons, not_or] at mark
      simp [isSpace, mark.1, mark.2.1, mark.2.2.1, mark.2.2.2.1, mark.2.2.2.2.1, mark.2.2.2.2.2.1]
    rw [List.dropWhile_cons_of_neg (by simp [visible])]

theorem takeSign_plain (plain : ∀ c ∈ text, c ∉ markChars) : takeSign text = (false, text) := by
  unfold takeSign
  split
  · exact absurd (by decide) (plain '-' List.mem_cons_self)
  · exact absurd (by decide) (plain '+' List.mem_cons_self)
  · rfl

theorem dropHexMark_plain (plain : ∀ c ∈ text, c ∉ markChars) : dropHexMark text = text := by
  unfold dropHexMark
  split
  · rename_i x d rest
    have mark := plain x (by simp)
    simp only [markChars, List.mem_cons, not_or] at mark
    have unmarked : ¬(x = 'x' ∨ x = 'X') := by
      rintro (lower | upper)
      · exact mark.2.2.2.2.2.2.2.2.1 lower
      · exact mark.2.2.2.2.2.2.2.2.2.1 upper
    rw [if_neg fun marked => unmarked marked.1]
  · rfl

theorem strtol_plain (plain : ∀ c ∈ text, c ∉ markChars) (base : Nat) :
    strtol text base =
      ((numeral base (text.takeWhile fun c => (digitValue base c).isSome) : Int),
        text.dropWhile fun c => (digitValue base c).isSome) := by
  have body : (if base = 16 then dropHexMark text else text) = text := by
    split
    · exact dropHexMark_plain plain
    · rfl
  have split := List.takeWhile_append_dropWhile (p := fun c => (digitValue base c).isSome) (l := text)
  unfold strtol
  rw [dropWhile_isSpace plain, takeSign_plain plain]
  dsimp only
  rw [body]
  by_cases none_ : (text.takeWhile fun c => (digitValue base c).isSome) = []
  · rw [if_pos none_, none_]
    rw [none_, List.nil_append] at split
    rw [split]
    rfl
  · have rest {digits behind : Str} (whole : digits ++ behind = text) :
        text.drop digits.length = behind := by
      rw [← whole, List.drop_left]
    rw [if_neg none_, rest split]
    rfl

theorem strtol_digits {base : Nat} (plain : ∀ c ∈ text, c ∉ markChars)
    (digits : ∀ c ∈ text, (digitValue base c).isSome = true) :
    strtol text base = ((numeral base text : Int), []) := by
  rw [strtol_plain plain, List.takeWhile_eq_self_iff.mpr digits, List.dropWhile_eq_nil_iff.mpr digits]

theorem readQuadPart_digits (digits : ∀ c ∈ part, c.isDigit = true) :
    readQuadPart part =
      if numeral 10 part ≤ 255 then some (some (decimalOctet part)) else none := by
  have hex : ∀ c ∈ part, isHexDigit c = true := fun c listed => isHexDigit_of_isDigit (digits c listed)
  have read : strtol part 10 = ((numeral 10 part : Int), []) :=
    strtol_digits (fun c listed => not_mark_of_isHexDigit (hex c listed))
      fun c listed => by rw [digitValue_ten]; exact digits c listed
  have plain : part ≠ ['*'] := by
    rintro rfl
    exact absurd (digits '*' (by simp)) (by decide)
  rw [readQuadPart, if_neg plain, read]
  dsimp only
  by_cases small : numeral 10 part ≤ 255
  · rw [if_neg (by omega), if_pos small]
    rfl
  · rw [if_pos (by omega), if_neg small]

theorem readQuadPart_decimal (decimal : DecimalOctet part) :
    readQuadPart part = some (some (decimalOctet part)) := by
  rw [readQuadPart_digits decimal.2.1, if_pos decimal.2.2]

theorem not_mem_of_decimal (decimal : DecimalOctet part) (other : c.isDigit = false) :
    c ∉ part := by
  intro listed
  rw [decimal.2.1 c listed] at other
  cases other

theorem stringSplit_quad {parts : List Str} (decimal : ∀ part ∈ parts, DecimalOctet part) :
    stringSplit (['.'].intercalate parts) '.' true = parts := by
  have clean : ∀ part ∈ parts, '.' ∉ part :=
    fun part listed => not_mem_of_decimal (decimal part listed) (by decide)
  rw [stringSplit, if_pos rfl,
    fields_intercalate '.' parts clean fun part listed => (decimal part listed).1]
  apply List.filter_eq_self.mpr
  intro part listed
  simpa using (decimal part listed).1

theorem readQuad_decimal {parts : List Str} (four : parts.length = 4)
    (decimal : ∀ part ∈ parts, DecimalOctet part) :
    readQuad (['.'].intercalate parts) = some (parts.map fun part => some (decimalOctet part)) := by
  rw [readQuad, stringSplit_quad decimal, if_neg fun other => other four]
  have each : ∀ parts : List Str, (∀ part ∈ parts, DecimalOctet part) →
      parts.mapM readQuadPart = some (parts.map fun part => some (decimalOctet part)) := by
    intro parts decimal
    induction parts with
    | nil => rfl
    | cons part parts ih =>
      have rest := ih fun other listed => decimal other (List.mem_cons_of_mem part listed)
      rw [List.mapM_cons, readQuadPart_decimal (decimal part List.mem_cons_self), rest]
      rfl
  exact each parts decimal

theorem numeral_zero_cons (base : Nat) (text : Str) : numeral base ('0' :: text) = numeral base text := by
  have zero : (digitValue base '0').getD 0 = 0 := by
    have value : hexDigitValue '0' = some 0 := by decide
    rw [digitValue, value]
    dsimp only
    split
    · rfl
    · rfl
  rw [numeral, List.foldl_cons, zero]
  rfl

theorem numeral_padGroup (part : Str) : numeral 16 (padGroup part) = numeral 16 part := by
  rw [padGroup]
  induction 4 - part.length with
  | zero => rfl
  | succ n ih => rw [List.replicate_succ, List.cons_append, numeral_zero_cons, ih]

theorem readHexPair_digits {text : Str} (digits : ∀ c ∈ text, isHexDigit c = true) :
    readHexPair text = some (UInt8.ofNat (numeral 16 text % 256)) := by
  have read : strtol text 16 = ((numeral 16 text : Int), []) :=
    strtol_digits (fun c listed => not_mark_of_isHexDigit (digits c listed))
      fun c listed => by rw [digitValue_sixteen]; exact digits c listed
  rw [readHexPair, read]
  rfl

theorem length_padGroup (short : part.length ≤ 4) : (padGroup part).length = 4 := by
  rw [padGroup, List.length_append, List.length_replicate]
  omega

theorem readPart_group (group : HexGroup part) (omitted : Nat) (last : Bool) (cells : List Cell) :
    readPart omitted last cells part = some (cells ++ (groupOctets part).map some) := by
  obtain ⟨some_, short, digits⟩ := group
  have plain : part ≠ ['*'] := by
    rintro rfl
    exact absurd (digits '*' (by simp)) (by decide)
  have four := length_padGroup short
  have hex : ∀ c ∈ padGroup part, isHexDigit c = true := by
    intro c listed
    rcases List.mem_append.mp listed with zero | own
    · rw [List.eq_of_mem_replicate zero]
      decide
    · exact digits c own
  have value := numeral_padGroup part
  rw [readPart, if_neg plain, if_neg some_, if_pos four, groupOctets, ← value]
  match padGroup part, four, hex with
  | [a, b, c, d], _, hex =>
    have high := @readHexPair_digits [a, b] fun x listed => hex x (by
      rcases List.mem_cons.mp listed with rfl | rest
      · simp
      · simp [List.mem_singleton.mp rest])
    have low := @readHexPair_digits [c, d] fun x listed => hex x (by
      rcases List.mem_cons.mp listed with rfl | rest
      · simp
      · simp [List.mem_singleton.mp rest])
    have small : ∀ x, (digitValue 16 x).getD 0 < 16 := by
      intro x
      cases digit : digitValue 16 x with
      | none => simp
      | some n => exact digitValue_lt digit
    have quotient : numeral 16 [a, b] % 256 = numeral 16 [a, b, c, d] / 256 := by
      have first := small a
      have second := small b
      have third := small c
      have fourth := small d
      simp only [numeral, List.foldl_cons, List.foldl_nil]
      omega
    have remainder : numeral 16 [c, d] % 256 = numeral 16 [a, b, c, d] % 256 := by
      simp only [numeral, List.foldl_cons, List.foldl_nil]
      omega
    simp only [List.take_succ_cons, List.take_zero, List.drop_succ_cons, List.drop_zero, high, low,
      Option.bind_some, Option.map_some, quotient, remainder, List.map_cons, List.map_nil]

end HttpServer
