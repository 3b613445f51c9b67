import HttpServer.Lib.Effect
import HttpServer.IpRepresentation

/-!
The string constructor of `ip_representation`. Parsing works on the value under
construction; writing past its sixteen octets is undefined in the source and an
error of its own here. A parsed pattern keeps zero in every wildcard octet.
-/
namespace HttpServer
open Effect

inductive IpParseError where
  | maxFourParts
  | maxPartValue
  | severalOmitted
  | missingBeforeNested
  | nestedNotAtEnd
  | nestedMaxFourParts
  | nestedPrecededByOther
  | nonHexCharacter
  | partTooLong
  | maxEightParts
  | outOfBounds (y : Nat)
  deriving DecidableEq, Repr

def IpParseError.message : IpParseError → Str
  | .maxFourParts => "IP is badly formatted. Max 4 parts in IPV4.".toList
  | .maxPartValue => "IP is badly formatted. 255 is max value for ip part.".toList
  | .severalOmitted =>
    "IP is badly formatted. Cannot have more than one omitted segment in IPV6.".toList
  | .missingBeforeNested =>
    "IP is badly formatted. Missing parts before nested IPV4.".toList
  | .nestedNotAtEnd => "IP is badly formatted. Nested IPV4 should be at the end".toList
  | .nestedMaxFourParts =>
    "IP is badly formatted. Nested IPV4 can have max 4 parts.".toList
  | .nestedPrecededByOther =>
    ("IP is badly formatted. Nested IPV4 can be preceded only by 0 " ++
      "(and, optionally, two 255 octects)").toList
  | .nonHexCharacter =>
    "IP is badly formatted. IPV6 part contains a non-hex character.".toList
  | .partTooLong =>
    ("IP is badly formatted. IPV6 parts can have max 4 characters " ++
      "(or nest an IPV4)").toList
  | .maxEightParts => "IP is badly formatted. Max 8 parts in IPV6.".toList
  | .outOfBounds _ => []

def isSpace (c : Char) : Bool := c ∈ [' ', '\t', '\n', '\x0b', '\x0c', '\r']

def digitValue (base : Nat) (c : Char) : Option Nat :=
  match hexDigitValue c with
  | some d => if d < base then some d else none
  | none => none

def takeSign : Str → Bool × Str
  | '-' :: rest => (true, rest)
  | '+' :: rest => (false, rest)
  | text => (false, text)

def dropHexMark (text : Str) : Str :=
  match text with
  | '0' :: x :: d :: rest =>
    if (x = 'x' ∨ x = 'X') ∧ (digitValue 16 d).isSome then d :: rest else text
  | _ => text

/-- `strtol` on a C string: optional blanks and sign, an optional `0x` in base 16, then
    the longest run of digits. No digits give 0 and nothing consumed. The range checks
    behind every call make its saturation at the ends of `long` irrelevant. The result
    is the value read and the text from `endp` on. -/
def strtol (s : Str) (base : Nat) : Int × Str :=
  let (negative, unsigned) := takeSign (s.dropWhile isSpace)
  let body := if base = 16 then dropHexMark unsigned else unsigned
  let digits := body.takeWhile fun c => (digitValue base c).isSome
  if digits = [] then (0, s)
  else
    let value : Int := (digits.foldl (fun n c => base * n + (digitValue base c).getD 0) 0 : Nat)
    (if negative then -value else value, body.drop digits.length)

def atEnd (rest : Str) : Bool := rest = [] ∨ rest.head? = some '\x00'

abbrev IpM := EStateM IpParseError IpRepresentation

def writeOctet (y : Nat) (v : UInt8) : IpM Unit :=
  if inside : y < 16 then
    modify fun ip => { ip with octets := Function.update ip.octets ⟨y, inside⟩ v }
  else throw (.outOfBounds y)

def clearBit (pos : Nat) : IpM Unit :=
  modify fun ip => { ip with mask := ip.mask &&& ~~~(1#16 <<< pos) }

def applyIpv4Part (y : Nat) (part : Str) : IpM Unit := do
  if part = ['*'] then clearBit y
  else
    let piece := (strtol part 10).1
    if piece < 0 ∨ piece > 255 then throw .maxPartValue
    else writeOctet y (UInt8.ofNat piece.toNat)

def applyIpv4Parts (start : Nat) : List Str → IpM Unit
  | [] => pure ()
  | part :: parts => do
    applyIpv4Part start part
    applyIpv4Parts (start + 1) parts

def parseIpv4 (ip : Str) : IpM Unit := do
  let parts := stringSplit ip '.' true
  if parts.length ≠ 4 then throw .maxFourParts
  else applyIpv4Parts 12 parts

/-- The number of groups the empty token stands for, and the tokens with the
    second empty one of a leading `::` removed. -/
def computeIpv6OmittedSegments (parts : List Str) : Except IpParseError (Nat × List Str) :=
  let omitted := 8 - (parts.length - 1)
  if omitted = 0 then .ok (0, parts)
  else
    let emptyCount := parts.countP (· = [])
    if emptyCount ≤ 1 then .ok (omitted, parts)
    else
      let omitted := if '.' ∈ parts.getLast?.getD [] then omitted - 1 else omitted
      if emptyCount = 2 ∧ parts[0]? = some [] ∧ parts[1]? = some [] then
        .ok (omitted + 1, parts.tail)
      else .error .severalOmitted

def validateIpv4MappedPrefix : IpM Unit := do
  let ip ← get
  if (List.finRange 16).any fun k => k.val < 10 && ip.octets k ≠ 0 then
    throw .nestedPrecededByOther
  else if !mappedByte (ip.octets 10) || !mappedByte (ip.octets 11) then
    throw .nestedPrecededByOther

def parseNestedIpv4 (part : Str) (last : Bool) (y : Nat) : IpM Unit := do
  if y ≠ 12 then throw .missingBeforeNested
  else if !last then throw .nestedNotAtEnd
  else
    let subparts := stringSplit part '.' true
    if subparts.length ≠ 4 then throw .nestedMaxFourParts
    else
      validateIpv4MappedPrefix
      applyIpv4Parts y subparts

def zeroFill : Nat → Nat → IpM Nat
  | y, 0 => pure y
  | y, omitted + 1 => do
    writeOctet y 0
    writeOctet (y + 1) 0
    zeroFill (y + 2) omitted

def parseHexPair (text : Str) : IpM UInt8 :=
  let (value, rest) := strtol text 16
  if atEnd rest then pure (UInt8.ofNat (value % 256).toNat) else throw .nonHexCharacter

/-- `apply_ipv6_part`, returning the octet position behind the part. A short
    group is padded on the left before it is cut into its two octets. -/
def applyIpv6Part (part : Str) (last : Bool) (y omitted : Nat) : IpM Nat := do
  if part = ['*'] then
    clearBit y
    clearBit (y + 1)
    pure (y + 2)
  else if part = [] then zeroFill y omitted
  else
    let part := List.replicate (4 - part.length) '0' ++ part
    if part.length = 4 then
      let hi ← parseHexPair (part.take 2)
      let lo ← parseHexPair (part.drop 2)
      writeOctet y hi
      writeOctet (y + 1) lo
      pure (y + 2)
    else if '.' ∈ part then
      parseNestedIpv4 part last y
      pure y
    else throw .partTooLong

def applyIpv6Parts (omitted : Nat) : Nat → List Str → IpM Unit
  | _, [] => pure ()
  | y, part :: parts => do
    let y ← applyIpv6Part part (parts = []) y omitted
    applyIpv6Parts omitted y parts

def parseIpv6 (ip : Str) : IpM Unit := do
  let parts := stringSplit ip ':' false
  if parts.length > 8 then throw .maxEightParts
  else
    match computeIpv6OmittedSegments parts with
    | .error e => throw e
    | .ok (omitted, parts) => applyIpv6Parts omitted 0 parts

namespace IpRepresentation

def parse (ip : Str) : Except IpParseError IpRepresentation :=
  match (if ':' ∈ ip then parseIpv6 ip else parseIpv4 ip) zero with
  | .ok _ value => .ok value
  | .error e _ => .error e

def WellMasked (ip : IpRepresentation) : Prop := ∀ i, checkBit ip.mask i = false → ip.octets i = 0

end IpRepresentation

structure CleanFrom (y : Nat) (ip : IpRepresentation) : Prop where
  masked : ip.WellMasked
  rest : ∀ i : Fin 16, y ≤ i.val → ip.octets i = 0 ∧ checkBit ip.mask i = true

theorem cleanFrom_zero : CleanFrom 0 IpRepresentation.zero := by
  have set : ∀ i, checkBit IpRepresentation.zero.mask i = true :=
    IpRepresentation.checkBit_defaultMask
  constructor
  · intro i clear
    rfl
  · intro i _
    exact ⟨rfl, set i⟩

theorem ensures_clearBit (y : Nat) :
    Ensures (CleanFrom y) (clearBit y) fun _ => CleanFrom (y + 1) := by
  apply ensures_modify
  intro ip clean
  constructor
  · intro i clear
    rw [checkBit_clear, Bool.and_eq_false_iff] at clear
    rcases clear with old | here
    · exact clean.masked i old
    · have same : i.val = y := by simpa using here
      exact (clean.rest i (by omega)).1
  · intro i beyond
    have kept := clean.rest i (by omega)
    refine ⟨kept.1, ?_⟩
    rw [checkBit_clear, kept.2]
    simp only [Bool.true_and, decide_eq_true_eq]
    omega

theorem ensures_writeOctet (y : Nat) (v : UInt8) :
    Ensures (CleanFrom y) (writeOctet y v) fun _ => CleanFrom (y + 1) := by
  unfold writeOctet
  split
  · rename_i inside
    apply ensures_modify
    intro ip clean
    constructor
    · intro i clear
      by_cases here : i = ⟨y, inside⟩
      · have set := (clean.rest ⟨y, inside⟩ (Nat.le_refl _)).2
        rw [here, set] at clear
        cases clear
      · simpa [Function.update_of_ne here] using clean.masked i clear
    · intro i beyond
      have other : i ≠ ⟨y, inside⟩ := by
        intro same
        have position : i.val = y := congrArg Fin.val same
        omega
      simpa [Function.update_of_ne other] using clean.rest i (by omega)
  · exact ensures_throw _

theorem ensures_applyIpv4Part (y : Nat) (part : Str) :
    Ensures (CleanFrom y) (applyIpv4Part y part) fun _ => CleanFrom (y + 1) := by
  unfold applyIpv4Part
  split
  · exact ensures_clearBit y
  · dsimp only
    split
    · exact ensures_throw _
    · exact ensures_writeOctet y _

theorem ensures_applyIpv4Parts (start : Nat) (parts : List Str) :
    Ensures (CleanFrom start) (applyIpv4Parts start parts) fun _ ip => ip.WellMasked := by
  induction parts generalizing start with
  | nil => exact ensures_pure fun ip clean => clean.masked
  | cons part parts ih =>
    exact ensures_bind (ensures_applyIpv4Part start part) fun _ => ih (start + 1)

theorem ensures_zeroFill (y omitted : Nat) :
    Ensures (CleanFrom y) (zeroFill y omitted) fun y' => CleanFrom y' := by
  induction omitted generalizing y with
  | zero => exact ensures_pure fun ip clean => clean
  | succ omitted ih =>
    refine ensures_bind (ensures_writeOctet y 0) fun _ => ?_
    exact ensures_bind (ensures_writeOctet (y + 1) 0) fun _ => ih (y + 2)

theorem ensures_parseHexPair (P : IpRepresentation → Prop) (text : Str) :
    Ensures P (parseHexPair text) fun _ => P := by
  unfold parseHexPair
  dsimp only
  split
  · exact ensures_pure fun ip holds => holds
  · exact ensures_throw _

theorem ensures_validateIpv4MappedPrefix (P : IpRepresentation → Prop) :
    Ensures P validateIpv4MappedPrefix fun _ => P := by
  refine ensures_bind (M := fun _ => P) (ensures_get fun _ holds => holds) fun ip => ?_
  split
  · exact ensures_throw _
  · split
    · exact ensures_throw _
    · exact ensures_pure fun _ holds => holds

theorem ensures_parseNestedIpv4 (part : Str) (last : Bool) (y : Nat) :
    Ensures (CleanFrom y) (parseNestedIpv4 part last y) fun _ ip =>
      ip.WellMasked ∧ last = true := by
  unfold parseNestedIpv4
  split
  · exact ensures_throw _
  · split
    · exact ensures_throw _
    · rename_i at_end
      dsimp only
      split
      · exact ensures_throw _
      · refine ensures_bind (ensures_validateIpv4MappedPrefix _) fun _ => ?_
        refine ensures_mono (ensures_applyIpv4Parts y _) fun _ ip masked => ?_
        exact ⟨masked, by simpa using at_end⟩

theorem ensures_applyIpv6Part (part : Str) (last : Bool) (y omitted : Nat) :
    Ensures (CleanFrom y) (applyIpv6Part part last y omitted) fun y' ip =>
      CleanFrom y' ip ∨ ip.WellMasked ∧ last = true := by
  unfold applyIpv6Part
  split
  · refine ensures_bind (ensures_clearBit y) fun _ => ?_
    refine ensures_bind (ensures_clearBit (y + 1)) fun _ => ?_
    exact ensures_pure fun ip clean => Or.inl clean
  · split
    · exact ensures_mono (ensures_zeroFill y omitted) fun y' ip clean => Or.inl clean
    · dsimp only
      split
      · refine ensures_bind (ensures_parseHexPair _ _) fun hi => ?_
        refine ensures_bind (ensures_parseHexPair _ _) fun lo => ?_
        refine ensures_bind (ensures_writeOctet y hi) fun _ => ?_
        refine ensures_bind (ensures_writeOctet (y + 1) lo) fun _ => ?_
        exact ensures_pure fun ip clean => Or.inl clean
      · split
        · refine ensures_bind (ensures_parseNestedIpv4 _ last y) fun _ => ?_
          exact ensures_pure fun ip nested => Or.inr nested
        · exact ensures_throw _

theorem ensures_applyIpv6Parts (omitted y : Nat) (parts : List Str) :
    Ensures (CleanFrom y) (applyIpv6Parts omitted y parts) fun _ ip => ip.WellMasked := by
  induction parts generalizing y with
  | nil => exact ensures_pure fun ip clean => clean.masked
  | cons part parts ih =>
    refine ensures_bind (ensures_applyIpv6Part part (parts = []) y omitted) fun y' => ?_
    cases parts with
    | nil =>
      apply ensures_pure
      intro ip done
      rcases done with clean | ⟨masked, -⟩
      · exact clean.masked
      · exact masked
    | cons next parts =>
      refine ensures_of_pre (ih y') fun ip going => ?_
      rcases going with clean | ⟨-, absurd⟩
      · exact clean
      · simp at absurd

/-- Whatever text the constructor accepts, the wildcard octets of the result
    are zero. -/
theorem IpRepresentation.parse_wellMasked {ip : Str} {value : IpRepresentation}
    (parsed : IpRepresentation.parse ip = .ok value) : value.WellMasked := by
  have v6 : Ensures (CleanFrom 0) (parseIpv6 ip) fun _ ip => ip.WellMasked := by
    unfold parseIpv6
    dsimp only
    split
    · exact ensures_throw _
    · split
      · exact ensures_throw _
      · exact ensures_applyIpv6Parts _ 0 _
  have v4 : Ensures (CleanFrom 0) (parseIpv4 ip) fun _ ip => ip.WellMasked := by
    unfold parseIpv4
    dsimp only
    split
    · exact ensures_throw _
    · refine ensures_of_pre (ensures_applyIpv4Parts 12 _) fun ip clean => ?_
      exact ⟨clean.masked, fun i _ => clean.rest i (Nat.zero_le _)⟩
  have both : Ensures (CleanFrom 0) (if ':' ∈ ip then parseIpv6 ip else parseIpv4 ip)
      fun _ ip => ip.WellMasked := by
    split
    · exact v6
    · exact v4
  unfold IpRepresentation.parse at parsed
  have result := both IpRepresentation.zero
  unfold outcome after at result
  cases run : (if ':' ∈ ip then parseIpv6 ip else parseIpv4 ip) IpRepresentation.zero with
  | error e t =>
    rw [run] at parsed
    cases parsed
  | ok a t =>
    rw [run] at parsed
    cases parsed
    rw [run] at result
    exact (result cleanFrom_zero).1 a rfl

end HttpServer
