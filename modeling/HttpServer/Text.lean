import HttpServer.Lib.Fields

/-!
Byte strings and the text helpers shared by routing, address parsing and the
dispatch path: `string_split`, the hex tables and percent-decoding. A byte is
the character with that code, so a `std::string` is a list of characters.
-/
namespace HttpServer
open Fields

abbrev Str := List Char

def resize (s : Str) (n : Nat) : Str := s.take n ++ List.replicate (n - s.length) '\x00'

theorem resize_shorter {s : Str} {n : Nat} (inside : n ≤ s.length) : resize s n = s.take n := by
  have none_left : n - s.length = 0 := by omega
  rw [resize, none_left, List.replicate_zero, List.append_nil]

/-- `string_split`. The last token is pushed only when text is left behind the
    final separator, so a trailing separator never opens an empty token. -/
def stringSplit (s : Str) (sep : Char) (collapse : Bool) : List Str :=
  if collapse then (fields sep s).filter (· ≠ []) else fields sep s

def tokenizeUrl (str : Str) : List Str := stringSplit str '/' true

def isValidHex (s : Str) : Bool :=
  s.all fun c => ('0' ≤ c && c ≤ '9') || ('a' ≤ c && c ≤ 'f') || ('A' ≤ c && c ≤ 'F')

def hexCharToVal (c : Char) : Nat :=
  if '0' ≤ c ∧ c ≤ '9' then c.toNat - '0'.toNat
  else if 'a' ≤ c ∧ c ≤ 'f' then c.toNat - 'a'.toNat + 10
  else if 'A' ≤ c ∧ c ≤ 'F' then c.toNat - 'A'.toNat + 10
  else 0

/-- `hex_digit_value`, with `none` for the source's -1. -/
def hexDigitValue (c : Char) : Option Nat :=
  if '0' ≤ c ∧ c ≤ '9' then some (c.toNat - '0'.toNat)
  else if 'a' ≤ c ∧ c ≤ 'f' then some (c.toNat - 'a'.toNat + 10)
  else if 'A' ≤ c ∧ c ≤ 'F' then some (c.toNat - 'A'.toNat + 10)
  else none

/-- The decoding loop of `unescape_buf_raw`. It writes at or behind the read
    position, so the bytes still to be read are the ones that came in. -/
def unescapeBufRaw : Str → Str
  | [] => []
  | '+' :: rest => ' ' :: unescapeBufRaw rest
  | '%' :: hi :: lo :: rest =>
    match hexDigitValue hi, hexDigitValue lo with
    | some h, some l => Char.ofNat (16 * h + l) :: unescapeBufRaw rest
    | _, _ => '%' :: unescapeBufRaw (hi :: lo :: rest)
  | c :: rest => if c = '\x00' then [] else c :: unescapeBufRaw rest

theorem unescapeBufRaw_cons {c : Char} (plain : c ≠ '%') (rest : Str) :
    unescapeBufRaw (c :: rest) =
      if c = '+' then ' ' :: unescapeBufRaw rest
      else if c = '\x00' then [] else c :: unescapeBufRaw rest := by
  by_cases plus : c = '+'
  · subst plus
    rw [unescapeBufRaw, if_pos rfl]
  · rw [if_neg plus, unescapeBufRaw]
    · exact plus
    · intro hi lo tail same
      exact absurd same plain

theorem unescapeBufRaw_clean {s : Str} (noPlus : '+' ∉ s) (noPercent : '%' ∉ s)
    (noNul : '\x00' ∉ s) : unescapeBufRaw s = s := by
  induction s with
  | nil => rfl
  | cons c rest ih =>
    simp only [List.mem_cons, not_or] at noPlus noPercent noNul
    rw [unescapeBufRaw_cons (Ne.symm noPercent.1), if_neg (Ne.symm noPlus.1),
      if_neg (Ne.symm noNul.1), ih noPlus.2 noPercent.2 noNul.2]

theorem plus_not_mem_unescapeBufRaw {s : Str} (noPercent : '%' ∉ s) : '+' ∉ unescapeBufRaw s := by
  induction s with
  | nil => simp [unescapeBufRaw]
  | cons c rest ih =>
    simp only [List.mem_cons, not_or] at noPercent
    rw [unescapeBufRaw_cons (Ne.symm noPercent.1)]
    split
    · simpa using ih noPercent.2
    · rename_i other
      split
      · simp
      · simpa [Ne.symm other] using ih noPercent.2

def httpUnescape (val : Str) : Str := unescapeBufRaw val

/-- `base_unescaper`. A string whose first byte is NUL, or that has none, is
    left as it is; a custom unescaper replaces percent-decoding. -/
def baseUnescaper (s : Str) (unescaper : Option (Str → Str)) : Str :=
  match s with
  | [] => s
  | c :: _ =>
    if c = '\x00' then s
    else match unescaper with
      | some f => f s
      | none => httpUnescape s

end HttpServer
