import HttpServer.Lib.LongestRun
import HttpServer.IpTextForms
import HttpServer.PeerAddress

/-!
`peer_address::to_string`. The formatter writes into fixed buffers; a text that
did not fit, a write behind the buffer and a loop that made no progress are
results of their own here. What it writes is the canonical text of the address:
the first of the longest runs of at least two zero groups becomes `::`, numbers
are lower-case and have no leading zeros, and the IPv4-mapped addresses are
those written with a dotted quad.
-/
namespace HttpServer
open LongestRun

inductive FormatStop where
  | truncated (text : Str)
  | outOfBounds (pos : Nat)
  | unfinished
  deriving DecidableEq, Repr

def formatHex (n : Nat) : Str := Nat.toDigits 16 n

def formatDecimal (n : Nat) : Str := Nat.toDigits 10 n

/-- A whole text printed into a buffer and read back from it; the terminator
    takes the place behind the text. -/
def printed (size : Nat) (text : Str) : Except FormatStop Str :=
  if text.length < size then .ok text else .error (.outOfBounds text.length)

abbrev Ipv6Groups := Fin 8 → UInt16

structure ZeroRun where
  start : Int := -1
  len : Nat := 0

def assembleGroups (bytes : Fin 16 → UInt8) : Ipv6Groups := fun i =>
  UInt16.ofNat ((bytes ⟨2 * i.val, by omega⟩).toNat <<< 8 |||
    (bytes ⟨2 * i.val + 1, by omega⟩).toNat)

def isIpv4Mapped (g : Ipv6Groups) : Bool :=
  ((List.finRange 8).all fun i => decide (5 ≤ i.val) || decide (g i = 0)) &&
    decide (g ⟨5, by omega⟩ = 0xffff)

def formatQuad (a b c d : UInt8) : Str :=
  formatDecimal a.toNat ++ '.' :: formatDecimal b.toNat ++ '.' :: formatDecimal c.toNat ++
    '.' :: formatDecimal d.toNat

def formatIpv4Mapped (bytes : Fin 16 → UInt8) : Except FormatStop Str :=
  printed 24 ("::ffff:".toList ++ formatQuad (bytes 12) (bytes 13) (bytes 14) (bytes 15))

def zeroAt (g : Ipv6Groups) (i : Nat) : Bool :=
  if inside : i < 8 then g ⟨i, inside⟩ = 0 else false

def findLongestZeroRun (g : Ipv6Groups) : ZeroRun :=
  let best := scan (fun i => zeroAt g i = true) 8
  if best.bestLen < 2 then {} else ⟨best.bestStart, best.bestLen⟩

def put (buf : Str) (c : Char) : Except FormatStop Str :=
  if buf.length < 40 then .ok (buf ++ [c]) else .error (.outOfBounds buf.length)

/-- The loop of `emit_canonical`; the buffer is what stands in front of `pos`. -/
def emitLoop (g : Ipv6Groups) (collapse : ZeroRun) : Nat → Nat → Str → Except FormatStop Str
  | 0, i, buf => if i < 8 then .error .unfinished else .ok buf
  | fuel + 1, i, buf =>
    if inside : i < 8 then
      if (i : Int) = collapse.start then do
        let buf ← put buf ':'
        let buf ← put buf ':'
        emitLoop g collapse fuel (i + collapse.len) buf
      else
        let digits := formatHex (g ⟨i, inside⟩).toNat
        if digits.length ≥ 40 - buf.length then .error (.truncated buf)
        else do
          let buf := buf ++ digits
          let buf ← if i + 1 < 8 ∧ ((i + 1 : Nat) : Int) ≠ collapse.start then put buf ':' else .ok buf
          emitLoop g collapse fuel (i + 1) buf
    else .ok buf

def emitCanonical (g : Ipv6Groups) (collapse : ZeroRun) : Except FormatStop Str :=
  emitLoop g collapse 8 0 []

def ipv6Canonical (bytes : Fin 16 → UInt8) : Except FormatStop Str :=
  let groups := assembleGroups bytes
  if isIpv4Mapped groups then formatIpv4Mapped bytes
  else emitCanonical groups (findLongestZeroRun groups)

def PeerAddress.toString (p : PeerAddress) : Except FormatStop Str :=
  match p.fam with
  | .ipv4 => printed 16 (formatQuad (p.bytes 0) (p.bytes 1) (p.bytes 2) (p.bytes 3))
  | .ipv6 => ipv6Canonical p.bytes
  | .unspec => .ok []

def lowerDigits : Str := "0123456789abcdef".toList

structure CanonicalNumeral (base n : Nat) (text : Str) : Prop where
  digits : ∀ c ∈ text, c ∈ lowerDigits.take base
  value : numeral base text = n
  some_ : text ≠ []
  lead : text.head? = some '0' → text = ['0']

def Mapped (bytes : Fin 16 → UInt8) : Prop :=
  (∀ i : Fin 16, i.val < 10 → bytes i = 0) ∧ bytes 10 = 0xFF ∧ bytes 11 = 0xFF

def groupValue (bytes : Fin 16 → UInt8) (i : Fin 8) : Nat :=
  256 * (bytes ⟨2 * i.val, by omega⟩).toNat + (bytes ⟨2 * i.val + 1, by omega⟩).toNat

def ZeroGroup (bytes : Fin 16 → UInt8) (i : Nat) : Prop :=
  ∃ inside : i < 8, groupValue bytes ⟨i, inside⟩ = 0

def CanonicalGroups (bytes : Fin 16 → UInt8) (text : Str) : Prop :=
  ∃ groups : List Str,
    List.Forall₂ (CanonicalNumeral 16) ((List.finRange 8).map (groupValue bytes)) groups ∧
    (((∀ start len, IsRun (ZeroGroup bytes) 8 start len → len < 2) ∧
        text = [':'].intercalate groups) ∨
      ∃ start len, 2 ≤ len ∧ Longest (ZeroGroup bytes) 8 start len ∧
        text = [':'].intercalate (groups.take start) ++
          ':' :: ':' :: [':'].intercalate (groups.drop (start + len)))

def CanonicalQuad (bytes : List UInt8) (text : Str) : Prop :=
  ∃ quad, List.Forall₂ (CanonicalNumeral 10) (bytes.map UInt8.toNat) quad ∧
    text = ['.'].intercalate quad

def CanonicalIpv6 (bytes : Fin 16 → UInt8) (text : Str) : Prop :=
  (Mapped bytes ∧ ∃ quad, CanonicalQuad [bytes 12, bytes 13, bytes 14, bytes 15] quad ∧
    text = "::ffff:".toList ++ quad) ∨
  (¬Mapped bytes ∧ CanonicalGroups bytes text)

def CanonicalText : SockAddr → Str → Prop
  | .inet sinAddr, text => CanonicalQuad (List.ofFn sinAddr) text
  | .inet6 sin6Addr, text => CanonicalIpv6 sin6Addr text

theorem digitChar_mem {base d : Nat} (upper : base ≤ 16) (small : d < base) :
    Nat.digitChar d ∈ lowerDigits.take base := by
  have table : ∀ d < 16, lowerDigits[d]? = some (Nat.digitChar d) := by decide
  apply List.mem_of_getElem? (i := d)
  rw [List.getElem?_take_of_lt small]
  exact table d (by omega)

theorem digitValue_digitChar {base d : Nat} (upper : base ≤ 16) (small : d < base) :
    digitValue base (Nat.digitChar d) = some d := by
  have table : ∀ d < 16, hexDigitValue (Nat.digitChar d) = some d := by decide
  rw [digitValue, table d (by omega)]
  exact if_pos small

theorem numeral_snoc (base : Nat) (text : Str) (c : Char) :
    numeral base (text ++ [c]) = base * numeral base text + (digitValue base c).getD 0 := by
  rw [numeral, List.foldl_append]
  rfl

theorem head_ne_zero_toDigits {base n : Nat} (lower : 1 < base) (upper : base ≤ 16)
    (positive : 0 < n) : (Nat.toDigits base n).head? ≠ some '0' := by
  induction n using Nat.strongRecOn with
  | ind n ih =>
    rw [Nat.toDigits_eq_if lower]
    split
    · rename_i small
      have table : ∀ d < 16, 0 < d → Nat.digitChar d ≠ '0' := by decide
      intro zero
      exact table n (by omega) positive (Option.some.inj zero)
    · rename_i large
      have quotient : 0 < n / base := Nat.div_pos (by omega) (by omega)
      have rest := ih (n / base) (Nat.div_lt_self positive lower) quotient
      rw [List.head?_append_of_ne_nil _ Nat.toDigits_ne_nil]
      exact rest

theorem numeral_toDigits {base : Nat} (lower : 1 < base) (upper : base ≤ 16) (n : Nat) :
    numeral base (Nat.toDigits base n) = n ∧
      ∀ c ∈ Nat.toDigits base n, c ∈ lowerDigits.take base := by
  induction n using Nat.strongRecOn with
  | ind n ih =>
    rw [Nat.toDigits_eq_if lower]
    split
    · rename_i small
      have value := numeral_snoc base [] (Nat.digitChar n)
      rw [digitValue_digitChar upper small] at value
      refine ⟨value.trans (by simp [numeral]), fun c listed => ?_⟩
      rw [List.mem_singleton.mp listed]
      exact digitChar_mem upper small
    · rename_i large
      have remainder : n % base < base := Nat.mod_lt n (by omega)
      obtain ⟨front, digits⟩ := ih (n / base) (Nat.div_lt_self (by omega) lower)
      refine ⟨?_, fun c listed => ?_⟩
      · rw [numeral_snoc, front, digitValue_digitChar upper remainder]
        exact Nat.div_add_mod n base
      · rcases List.mem_append.mp listed with before | last
        · exact digits c before
        · rw [List.mem_singleton.mp last]
          exact digitChar_mem upper remainder

theorem canonical_toDigits {base : Nat} (lower : 1 < base) (upper : base ≤ 16) (n : Nat) :
    CanonicalNumeral base n (Nat.toDigits base n) := by
  obtain ⟨value, digits⟩ := numeral_toDigits lower upper n
  refine ⟨digits, value, Nat.toDigits_ne_nil, fun zero => ?_⟩
  by_cases positive : 0 < n
  · exact absurd zero (head_ne_zero_toDigits lower upper positive)
  · rw [Nat.eq_zero_of_not_pos positive, Nat.toDigits_eq_if lower, if_pos (by omega)]
    rfl

theorem length_formatDecimal (byte : UInt8) : (formatDecimal byte.toNat).length ≤ 3 := by
  have small := byte.toNat_lt
  exact (Nat.length_toDigits_le_iff (by omega) (by omega)).mpr (by omega)

theorem length_formatHex (group : UInt16) : (formatHex group.toNat).length ≤ 4 := by
  have small := group.toNat_lt
  exact (Nat.length_toDigits_le_iff (by omega) (by omega)).mpr (by omega)

theorem hexGroup_formatHex (group : UInt16) : HexGroup (formatHex group.toNat) := by
  have canonical := @canonical_toDigits 16 (by omega) (by omega) group.toNat
  have hex := List.all_eq_true.mp (show (lowerDigits.take 16).all isHexDigit = true from rfl)
  exact ⟨canonical.some_, length_formatHex group, fun c listed => hex c (canonical.digits c listed)⟩

theorem decimalOctet_formatDecimal (byte : UInt8) :
    DecimalOctet (formatDecimal byte.toNat) ∧ decimalOctet (formatDecimal byte.toNat) = byte := by
  have canonical := @canonical_toDigits 10 (by omega) (by omega) byte.toNat
  have value : numeral 10 (formatDecimal byte.toNat) = byte.toNat := canonical.value
  have decimal := List.all_eq_true.mp (show (lowerDigits.take 10).all Char.isDigit = true from rfl)
  have small := byte.toNat_lt
  refine ⟨⟨canonical.some_, fun c listed => decimal c (canonical.digits c listed), ?_⟩, ?_⟩
  · rw [value]
    omega
  · rw [decimalOctet, value, UInt8.ofNat_toNat]

def quadTexts (bytes : List UInt8) : List Str := bytes.map fun byte => formatDecimal byte.toNat

theorem formatQuad_eq (a b c d : UInt8) : formatQuad a b c d = quadText (quadTexts [a, b, c, d]) := by
  simp [formatQuad, quadText, quadTexts, List.intercalate_cons_cons]

theorem canonicalQuad_quadTexts (bytes : List UInt8) :
    CanonicalQuad bytes (quadText (quadTexts bytes)) := by
  refine ⟨quadTexts bytes, ?_, rfl⟩
  rw [quadTexts, List.forall₂_map_left_iff, List.forall₂_map_right_iff, List.forall₂_same]
  intro byte _
  exact canonical_toDigits (by omega) (by omega) byte.toNat

theorem decimalQuad_quadTexts {bytes : List UInt8} (four : bytes.length = 4) :
    DecimalQuad (quadTexts bytes) ∧ (quadTexts bytes).map decimalOctet = bytes := by
  refine ⟨⟨by rw [quadTexts, List.length_map, four], fun part listed => ?_⟩, ?_⟩
  · obtain ⟨byte, -, rfl⟩ := List.mem_map.mp listed
    exact (decimalOctet_formatDecimal byte).1
  · rw [quadTexts, List.map_map]
    conv_rhs => rw [← List.map_id bytes]
    apply List.map_congr_left
    intro byte _
    exact (decimalOctet_formatDecimal byte).2

theorem length_formatQuad (a b c d : UInt8) : (formatQuad a b c d).length ≤ 15 := by
  have first := length_formatDecimal a
  have second := length_formatDecimal b
  have third := length_formatDecimal c
  have fourth := length_formatDecimal d
  simp only [formatQuad, List.length_append, List.length_cons]
  omega

variable (bytes : Fin 16 → UInt8)

theorem assembleGroups_toNat (i : Fin 8) : (assembleGroups bytes i).toNat = groupValue bytes i := by
  have high := (bytes ⟨2 * i.val, by omega⟩).toNat_lt
  have low := (bytes ⟨2 * i.val + 1, by omega⟩).toNat_lt
  rw [assembleGroups, ← Nat.shiftLeft_add_eq_or_of_lt low, Nat.shiftLeft_eq, UInt16.toNat_ofNat',
    groupValue, Nat.mod_eq_of_lt (by omega)]
  omega

theorem assembleGroups_eq_iff (i : Fin 8) (value : UInt16) :
    assembleGroups bytes i = value ↔ groupValue bytes i = value.toNat := by
  rw [← assembleGroups_toNat]
  exact UInt16.toNat_inj.symm

theorem zeroAt_iff (i : Nat) : zeroAt (assembleGroups bytes) i = true ↔ ZeroGroup bytes i := by
  unfold zeroAt ZeroGroup
  split
  · rename_i inside
    simp only [decide_eq_true_eq, inside, exists_true_left, assembleGroups_eq_iff]
    rfl
  · rename_i outside
    simp [outside]

theorem eq_of_toNat {a b : UInt8} (same : a.toNat = b.toNat) : a = b := UInt8.toNat_inj.mp same

theorem isIpv4Mapped_iff : isIpv4Mapped (assembleGroups bytes) = true ↔ Mapped bytes := by
  have ten := (bytes 10).toNat_lt
  have eleven := (bytes 11).toNat_lt
  have fifth : groupValue bytes ⟨5, by omega⟩ = 256 * (bytes 10).toNat + (bytes 11).toNat := rfl
  simp only [isIpv4Mapped, Bool.and_eq_true, List.all_eq_true, List.mem_finRange, forall_const,
    Bool.or_eq_true, decide_eq_true_eq, assembleGroups_eq_iff, fifth]
  constructor
  · rintro ⟨zeros, ones⟩
    have whole : 256 * (bytes 10).toNat + (bytes 11).toNat = 65535 := ones
    refine ⟨fun i small => ?_, eq_of_toNat (by change _ = 255; omega),
      eq_of_toNat (by change _ = 255; omega)⟩
    have group := (zeros ⟨i.val / 2, by omega⟩).resolve_left (by dsimp only; omega)
    have sum : 256 * (bytes ⟨2 * (i.val / 2), by omega⟩).toNat +
        (bytes ⟨2 * (i.val / 2) + 1, by omega⟩).toNat = 0 := group
    rcases Nat.mod_two_eq_zero_or_one i.val with even | odd
    · have same : i = ⟨2 * (i.val / 2), by omega⟩ := Fin.ext (by dsimp only; omega)
      rw [same]
      exact eq_of_toNat (by change _ = 0; omega)
    · have same : i = ⟨2 * (i.val / 2) + 1, by omega⟩ := Fin.ext (by dsimp only; omega)
      rw [same]
      exact eq_of_toNat (by change _ = 0; omega)
  · rintro ⟨zeros, first, second⟩
    refine ⟨fun i => ?_, by rw [first, second]; rfl⟩
    by_cases late : 5 ≤ i.val
    · exact Or.inl late
    · have high := zeros ⟨2 * i.val, by omega⟩ (by dsimp only; omega)
      have low := zeros ⟨2 * i.val + 1, by omega⟩ (by dsimp only; omega)
      right
      rw [groupValue, high, low]
      rfl

def groupTexts (g : Ipv6Groups) : List Str := List.ofFn fun i => formatHex (g i).toNat

theorem length_groupTexts (g : Ipv6Groups) : (groupTexts g).length = 8 := by
  rw [groupTexts, List.length_ofFn]

theorem drop_groupTexts (g : Ipv6Groups) {i : Nat} (inside : i < 8) :
    (groupTexts g).drop i = formatHex (g ⟨i, inside⟩).toNat :: (groupTexts g).drop (i + 1) := by
  have bound : i < (groupTexts g).length := by rw [length_groupTexts]; exact inside
  rw [List.drop_eq_getElem_cons bound]
  simp only [groupTexts, List.getElem_ofFn]

theorem put_of_room {buf : Str} (room : buf.length < 40) (c : Char) : put buf c = .ok (buf ++ [c]) :=
  if_pos room

def groupColon (collapse : ZeroRun) (i : Nat) : Str :=
  if i + 1 < 8 ∧ ((i + 1 : Nat) : Int) ≠ collapse.start then [':'] else []

/-- A group and its colon take five characters at most, so the buffer has room
    for eight of them. -/
theorem emitLoop_group {g : Ipv6Groups} {collapse : ZeroRun} {fuel i : Nat} {buf : Str}
    (inside : i < 8) (other : (i : Int) ≠ collapse.start) (short : buf.length ≤ 5 * i) :
    emitLoop g collapse (fuel + 1) i buf = emitLoop g collapse fuel (i + 1)
        (buf ++ formatHex (g ⟨i, inside⟩).toNat ++ groupColon collapse i) ∧
      (buf ++ formatHex (g ⟨i, inside⟩).toNat ++ groupColon collapse i).length ≤ 5 * (i + 1) := by
  have few := length_formatHex (g ⟨i, inside⟩)
  have room : (buf ++ formatHex (g ⟨i, inside⟩).toNat).length < 40 := by
    rw [List.length_append]
    omega
  rw [emitLoop, dif_pos inside, if_neg other, if_neg (by omega), groupColon]
  dsimp only
  by_cases colon : i + 1 < 8 ∧ ((i + 1 : Nat) : Int) ≠ collapse.start
  · rw [if_pos colon, if_pos colon, put_of_room room]
    refine ⟨rfl, ?_⟩
    rw [List.length_append, List.length_append, List.length_singleton]
    omega
  · rw [if_neg colon, if_neg colon, List.append_nil]
    refine ⟨rfl, ?_⟩
    rw [List.length_append]
    omega

theorem emitLoop_plain {g : Ipv6Groups} {collapse : ZeroRun} {fuel i : Nat} {buf : Str}
    (enough : 8 ≤ i + fuel) (bound : i ≤ 8) (short : buf.length ≤ 5 * i)
    (apart : ∀ j : Nat, i ≤ j → j < 8 → (j : Int) ≠ collapse.start) :
    emitLoop g collapse fuel i buf = .ok (buf ++ [':'].intercalate ((groupTexts g).drop i)) := by
  induction fuel generalizing i buf with
  | zero =>
    have last : i = 8 := by omega
    rw [last, emitLoop, if_neg (by omega), List.drop_of_length_le (by rw [length_groupTexts])]
    simp
  | succ fuel ih =>
    by_cases inside : i < 8
    · obtain ⟨step, shorter⟩ := @emitLoop_group g collapse fuel i buf inside
        (apart i (Nat.le_refl i) inside) short
      have rest := ih (by omega) (by omega) shorter fun j after before => apart j (by omega) before
      rw [step, rest, drop_groupTexts g inside, groupColon]
      by_cases more : i + 1 < 8
      · rw [if_pos ⟨more, apart (i + 1) (by omega) more⟩, drop_groupTexts g more,
          List.intercalate_cons_cons]
        simp
      · rw [if_neg fun both => more both.1,
          List.drop_of_length_le (by rw [length_groupTexts]; omega)]
        simp
    · rw [emitLoop, dif_neg inside, List.drop_of_length_le (by rw [length_groupTexts]; omega)]
      simp

theorem emitLoop_collapse {g : Ipv6Groups} {start len fuel i : Nat} {buf : Str}
    (enough : 8 ≤ i + fuel) (before : i ≤ start) (some_ : 0 < len) (inside : start + len ≤ 8)
    (short : buf.length ≤ 5 * i) :
    emitLoop g ⟨start, len⟩ fuel i buf =
      .ok (buf ++ [':'].intercalate (((groupTexts g).take start).drop i) ++
        ':' :: ':' :: [':'].intercalate ((groupTexts g).drop (start + len))) := by
  induction fuel generalizing i buf with
  | zero => omega
  | succ fuel ih =>
    have below : i < 8 := by omega
    by_cases here : i = start
    · subst here
      have rest := @emitLoop_plain g ⟨i, len⟩ fuel (i + len) (buf ++ [':'] ++ [':']) (by omega) inside
        (by simp only [List.length_append, List.length_singleton]; omega)
        fun j after _ => by dsimp only; omega
      have none_ : ((groupTexts g).take i).drop i = [] :=
        List.drop_of_length_le (by rw [List.length_take]; omega)
      rw [emitLoop, dif_pos below, if_pos rfl, put_of_room (by omega)]
      refine (congrArg (· >>= _) (put_of_room (by simp; omega) ':')).trans ?_
      refine rest.trans (congrArg Except.ok ?_)
      rw [none_]
      simp
    · have other : (i : Int) ≠ start := by omega
      obtain ⟨step, shorter⟩ := @emitLoop_group g ⟨start, len⟩ fuel i buf below other short
      have rest := ih (by omega) (by omega) shorter
      have cut : ((groupTexts g).take start).drop i =
          formatHex (g ⟨i, below⟩).toNat :: ((groupTexts g).take start).drop (i + 1) := by
        rw [List.drop_take, drop_groupTexts g below, List.drop_take,
          show start - i = start - (i + 1) + 1 by omega, List.take_succ_cons]
      rw [step, rest, cut, groupColon]
      by_cases next : i + 1 = start
      · rw [if_neg fun both => both.2 (congrArg Nat.cast next),
          List.drop_of_length_le (by rw [List.length_take]; omega)]
        simp
      · have more : ((groupTexts g).take start).drop (i + 1) ≠ [] := by
          rw [ne_eq, List.drop_eq_nil_iff, List.length_take, length_groupTexts]
          omega
        obtain ⟨group, groups, whole⟩ := List.exists_cons_of_ne_nil more
        rw [if_pos ⟨by omega, by dsimp only; omega⟩, whole, List.intercalate_cons_cons]
        simp

theorem canonical_groupTexts :
    List.Forall₂ (CanonicalNumeral 16) ((List.finRange 8).map (groupValue bytes))
      (groupTexts (assembleGroups bytes)) := by
  rw [groupTexts, List.ofFn_eq_map, List.forall₂_map_left_iff, List.forall₂_map_right_iff,
    List.forall₂_same]
  intro i _
  rw [assembleGroups_toNat]
  exact canonical_toDigits (by omega) (by omega) (groupValue bytes i)

theorem findLongestZeroRun_cases :
    (findLongestZeroRun (assembleGroups bytes) = {} ∧
      ∀ start len, IsRun (ZeroGroup bytes) 8 start len → len < 2) ∨
    ∃ start len : Nat, findLongestZeroRun (assembleGroups bytes) = ⟨start, len⟩ ∧ 2 ≤ len ∧
      Longest (ZeroGroup bytes) 8 start len := by
  have same : (fun i => zeroAt (assembleGroups bytes) i = true) = ZeroGroup bytes :=
    funext fun i => propext (zeroAt_iff bytes i)
  have most := (@known_scan (fun i => zeroAt (assembleGroups bytes) i = true) _ 8).most
  have longest := @scan_longest (fun i => zeroAt (assembleGroups bytes) i = true) 8 _
  unfold findLongestZeroRun
  generalize scan (fun i => zeroAt (assembleGroups bytes) i = true) 8 = best at most longest ⊢
  rw [same] at most longest
  dsimp only
  split
  · rename_i short
    refine Or.inl ⟨rfl, fun start len run => ?_⟩
    have bound := most start len run
    omega
  · rename_i long
    obtain ⟨start, found, first⟩ := longest (by omega)
    exact Or.inr ⟨start, best.bestLen, by rw [found], by omega, first⟩

end HttpServer
