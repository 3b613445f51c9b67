import HttpServer.Lib.Logged
import HttpServer.IpReading

/-!
The string constructor with its indices. Tokens are read by position from a
vector that is changed in place, and every octet written, mask bit cleared and
token read is logged with the size the vector has at that moment. The run is
that of the constructor, and nothing in its log is out of bounds.
-/
namespace HttpServer
open Effect Logged

inductive IpAccess where
  | octet (y : Nat)
  | maskBit (pos : Nat)
  | token (i size : Nat)
  deriving DecidableEq, Repr

def IpAccess.Inside : IpAccess → Prop
  | .octet y => y < 16
  | .maskBit pos => pos < 16
  | .token i size => i < size

/-- Every error of the constructor but a write past the octets, which is no
    exception of the source. -/
def IpParseError.InvalidArgument (e : IpParseError) : Prop := ∀ y, e ≠ .outOfBounds y

namespace Indexed

abbrev AccessM := LogM IpParseError IpRepresentation IpAccess

def writeOctet (y : Nat) (v : UInt8) : AccessM Unit := do
  record (.octet y)
  silent (HttpServer.writeOctet y v)

def clearBit (pos : Nat) : AccessM Unit := do
  record (.maskBit pos)
  silent (HttpServer.clearBit pos)

def token (parts : List Str) (i : Nat) : AccessM Str := do
  record (.token i parts.length)
  pure (parts[i]?.getD [])

def applyIpv4Part (start : Nat) (parts : List Str) (i : Nat) : AccessM Unit := do
  if (← token parts i) = ['*'] then clearBit (start + i)
  else
    let piece := (strtol (← token parts i) 10).1
    if piece < 0 ∨ piece > 255 then throw .maxPartValue
    else writeOctet (start + i) (UInt8.ofNat piece.toNat)

def applyIpv4Parts (start : Nat) (parts : List Str) : AccessM Unit :=
  forLoop (fun _ => parts.length) (fun i _ => applyIpv4Part start parts i) parts.length 0 ()

def parseIpv4 (ip : Str) : AccessM Unit := do
  let parts := stringSplit ip '.' true
  if parts.length ≠ 4 then throw .maxFourParts
  else applyIpv4Parts 12 parts

def emptyCount (parts : List Str) : AccessM Nat :=
  forLoop (fun _ => parts.length)
    (fun i count => do
      let part ← token parts i
      pure (if part = [] then count + 1 else count)) parts.length 0 0

def leadingDoubleColon (parts : List Str) (emptyCount : Nat) : AccessM Bool := do
  if emptyCount = 2 then
    if (← token parts 0) = [] then
      let second ← token parts 1
      pure (second = [])
    else pure false
  else pure false

def computeIpv6OmittedSegments (parts : List Str) : AccessM (Nat × List Str) := do
  let omitted := 8 - (parts.length - 1)
  if omitted = 0 then pure (0, parts)
  else
    let emptyCount ← emptyCount parts
    if emptyCount ≤ 1 then pure (omitted, parts)
    else
      let back ← token parts (parts.length - 1)
      let omitted := if '.' ∈ back then omitted - 1 else omitted
      if (← leadingDoubleColon parts emptyCount) then pure (omitted + 1, parts.tail)
      else throw .severalOmitted

def parseNestedIpv4 (parts : List Str) (i y : Nat) : AccessM Unit := do
  if y ≠ 12 then throw .missingBeforeNested
  else if i ≠ parts.length - 1 then throw .nestedNotAtEnd
  else
    let subparts := stringSplit (← token parts i) '.' true
    if subparts.length ≠ 4 then throw .nestedMaxFourParts
    else
      silent validateIpv4MappedPrefix
      applyIpv4Parts y subparts

def zeroFill : Nat → Nat → AccessM Nat
  | y, 0 => pure y
  | y, omitted + 1 => do
    writeOctet y 0
    writeOctet (y + 1) 0
    zeroFill (y + 2) omitted

/-- A short group is padded in the vector itself. -/
def applyIpv6Part (parts : List Str) (i y omitted : Nat) : AccessM (List Str × Nat) := do
  let part ← token parts i
  if part = ['*'] then
    clearBit y
    clearBit (y + 1)
    pure (parts, y + 2)
  else if part = [] then
    let y ← zeroFill y omitted
    pure (parts, y)
  else
    let part := List.replicate (4 - part.length) '0' ++ part
    let parts := parts.set i part
    if part.length = 4 then
      let hi ← silent (parseHexPair (part.take 2))
      let lo ← silent (parseHexPair (part.drop 2))
      writeOctet y hi
      writeOctet (y + 1) lo
      pure (parts, y + 2)
    else if '.' ∈ part then
      parseNestedIpv4 parts i y
      pure (parts, y)
    else throw .partTooLong

def applyIpv6Parts (omitted : Nat) (parts : List Str) : AccessM (List Str × Nat) :=
  forLoop (fun state => state.1.length)
    (fun i state => applyIpv6Part state.1 i state.2 omitted) parts.length 0 (parts, 0)

def parseIpv6 (ip : Str) : AccessM Unit := do
  let parts := stringSplit ip ':' false
  if parts.length > 8 then throw .maxEightParts
  else
    let (omitted, parts) ← computeIpv6OmittedSegments parts
    let _ ← applyIpv6Parts omitted parts

def parse (ip : Str) : AccessM Unit := if ':' ∈ ip then parseIpv6 ip else parseIpv4 ip

def accesses (ip : Str) : List IpAccess := (after (parse ip) (IpRepresentation.zero, [])).2

abbrev Traces {α β : Type} (R : β → α → Prop) (y : AccessM β) (x : IpM α) : Prop :=
  Follows IpAccess.Inside IpParseError.InvalidArgument R y x

variable {parts : List Str} {i y omitted : Nat} {part : Str}

theorem traces_writeOctet (inside : y < 16) (v : UInt8) :
    Traces Eq (writeOctet y v) (HttpServer.writeOctet y v) := by
  apply follows_record (show IpAccess.Inside (.octet y) from inside)
  apply follows_silent
  intro s e raised
  rw [HttpServer.writeOctet, dif_pos inside] at raised
  cases raised

theorem traces_clearBit {pos : Nat} (inside : pos < 16) :
    Traces Eq (clearBit pos) (HttpServer.clearBit pos) := by
  apply follows_record (show IpAccess.Inside (.maskBit pos) from inside)
  apply follows_silent
  intro s e raised
  cases raised

theorem traces_token {α β : Type} {R : β → α → Prop} {g : Str → AccessM β} {x : IpM α}
    (here : parts[i]? = some part) (rest : Traces R (g part) x) :
    Traces R (token parts i >>= g) x := by
  have inside : i < parts.length := (List.getElem?_eq_some_iff.mp here).1
  have read : Traces (fun b _ => b = part) (token parts i) (pure ()) := by
    apply follows_record (show IpAccess.Inside (.token i parts.length) from inside)
    apply follows_pure
    rw [here]
    rfl
  apply follows_bind_pure read
  intro b same
  rw [same]
  exact rest

theorem drop_of_getElem (inside : i < parts.length) :
    ∃ part, parts[i]? = some part ∧ parts.drop i = part :: parts.drop (i + 1) :=
  ⟨parts.get ⟨i, inside⟩, List.getElem?_eq_getElem inside, List.drop_eq_getElem_cons inside⟩

theorem traces_applyIpv4Part {start : Nat} (here : parts[i]? = some part) (room : start + i < 16) :
    Traces Eq (applyIpv4Part start parts i) (HttpServer.applyIpv4Part (start + i) part) := by
  apply traces_token here
  apply follows_ite
  · intro star
    exact traces_clearBit room
  · intro other
    apply traces_token here
    apply follows_ite
    · intro large
      exact follows_throw nofun
    · intro small
      exact traces_writeOctet room _

theorem traces_applyIpv4Parts {start : Nat} (room : start + parts.length ≤ 16) :
    Traces Eq (applyIpv4Parts start parts) (HttpServer.applyIpv4Parts start parts) := by
  have loop : ∀ fuel i, parts.length = i + fuel →
      Traces Eq (forLoop (fun _ => parts.length) (fun i _ => applyIpv4Part start parts i) fuel i ())
        (HttpServer.applyIpv4Parts (start + i) (parts.drop i)) := by
    intro fuel
    induction fuel with
    | zero =>
      intro i length
      rw [List.drop_of_length_le (by omega)]
      exact follows_pure rfl
    | succ fuel ih =>
      intro i length
      obtain ⟨part, here, rest⟩ := drop_of_getElem (show i < parts.length by omega)
      rw [forLoop, if_pos (by omega), rest]
      apply follows_bind (traces_applyIpv4Part here (by omega))
      intro _ _ _
      exact ih (i + 1) (by omega)
  exact loop parts.length 0 (by omega)

theorem traces_parseIpv4 (ip : Str) : Traces Eq (parseIpv4 ip) (HttpServer.parseIpv4 ip) := by
  apply follows_ite
  · intro other
    exact follows_throw nofun
  · intro four
    exact traces_applyIpv4Parts (by omega)

theorem traces_emptyCount (parts : List Str) :
    Traces Eq (emptyCount parts) (pure (parts.countP (· = []))) := by
  have loop : ∀ fuel i count, parts.length = i + fuel →
      Traces Eq (forLoop (fun _ => parts.length)
        (fun i count => do
          let part ← token parts i
          pure (if part = [] then count + 1 else count)) fuel i count)
        (pure (count + (parts.drop i).countP (· = []))) := by
    intro fuel
    induction fuel with
    | zero =>
      intro i count length
      rw [List.drop_of_length_le (by omega)]
      exact follows_pure rfl
    | succ fuel ih =>
      intro i count length
      obtain ⟨part, here, rest⟩ := drop_of_getElem (show i < parts.length by omega)
      have step : Traces (fun b _ => b = if part = [] then count + 1 else count)
          (do
            let part ← token parts i
            pure (if part = [] then count + 1 else count)) (pure ()) :=
        traces_token here (follows_pure rfl)
      rw [forLoop, if_pos (by omega), rest]
      apply follows_bind_pure step
      intro counted same
      have tail := ih (i + 1) counted (by omega)
      have total : counted + (parts.drop (i + 1)).countP (· = []) =
          count + (part :: parts.drop (i + 1)).countP (· = []) := by
        rw [same, List.countP_cons]
        by_cases gap : part = []
        · simp only [gap, decide_true, if_true]
          omega
        · simp only [gap, decide_false, if_false, Bool.false_eq_true]
          omega
      rw [← total]
      exact tail
  have whole := loop parts.length 0 0 (by omega)
  rw [Nat.zero_add] at whole
  exact whole

theorem traces_leadingDoubleColon (two : 2 ≤ parts.length) (count : Nat) :
    Traces Eq (leadingDoubleColon parts count)
      (pure (decide (count = 2 ∧ parts[0]? = some [] ∧ parts[1]? = some []))) := by
  match parts, two with
  | first :: second :: rest, _ =>
    have zero : (first :: second :: rest)[0]? = some first := rfl
    have one : (first :: second :: rest)[1]? = some second := rfl
    unfold leadingDoubleColon
    split
    · rename_i exact_
      apply traces_token zero
      split
      · rename_i empty
        apply traces_token one
        apply follows_pure
        simp [exact_, empty]
      · rename_i filled
        apply follows_pure
        simp [filled]
    · rename_i other
      apply follows_pure
      simp [other]

def ofExcept {α : Type} : Except IpParseError α → IpM α
  | .ok a => pure a
  | .error e => throw e

theorem outcome_ofExcept {α : Type} (r : Except IpParseError α) (s : IpRepresentation) (a : α)
    (returned : outcome (ofExcept r) s = .ok a) : r = .ok a := by
  cases r with
  | ok b =>
    cases returned
    rfl
  | error e => cases returned

theorem traces_computeIpv6OmittedSegments :
    Traces Eq (computeIpv6OmittedSegments parts)
      (ofExcept (HttpServer.computeIpv6OmittedSegments parts)) := by
  unfold computeIpv6OmittedSegments HttpServer.computeIpv6OmittedSegments
  dsimp only
  split
  · exact follows_pure rfl
  · apply follows_bind_pure (traces_emptyCount parts)
    rintro _ rfl
    split
    · exact follows_pure rfl
    · rename_i several
      have enough := List.countP_le_length (p := fun part => decide (part = [])) (l := parts)
      obtain ⟨back, last⟩ : ∃ back, parts[parts.length - 1]? = some back :=
        ⟨_, List.getElem?_eq_getElem (show parts.length - 1 < parts.length by omega)⟩
      have same : parts.getLast? = some back := by rw [List.getLast?_eq_getElem?, last]
      apply traces_token last
      apply follows_bind_pure (traces_leadingDoubleColon (by omega) _)
      rintro _ rfl
      rw [same]
      simp only [decide_eq_true_eq, Option.getD_some]
      split
      · exact follows_pure rfl
      · exact follows_throw nofun

theorem traces_validateIpv4MappedPrefix :
    Traces Eq (silent validateIpv4MappedPrefix) validateIpv4MappedPrefix := by
  apply follows_silent
  intro s e raised
  unfold validateIpv4MappedPrefix at raised
  rw [outcome_get_bind] at raised
  split at raised
  · cases raised
    exact nofun
  · split at raised
    · cases raised
      exact nofun
    · cases raised

theorem traces_parseHexPair (text : Str) :
    Traces Eq (silent (parseHexPair text)) (parseHexPair text) := by
  apply follows_silent
  intro s e raised
  unfold parseHexPair at raised
  dsimp only at raised
  split at raised
  · cases raised
  · cases raised
    exact nofun

theorem traces_parseNestedIpv4 {last : Bool} (here : parts[i]? = some part)
    (final : last = true ↔ i + 1 = parts.length) :
    Traces Eq (parseNestedIpv4 parts i y) (HttpServer.parseNestedIpv4 part last y) := by
  have inside : i < parts.length := (List.getElem?_eq_some_iff.mp here).1
  have position : i ≠ parts.length - 1 ↔ (!last) = true := by
    rw [Bool.not_eq_true', ← Bool.not_eq_true, final]
    omega
  unfold parseNestedIpv4 HttpServer.parseNestedIpv4
  apply follows_ite
  · intro other
    exact follows_throw nofun
  · intro twelve
    simp only [position]
    apply follows_ite
    · intro early
      exact follows_throw nofun
    · intro late
      apply traces_token here
      apply follows_ite
      · intro other
        exact follows_throw nofun
      · intro four
        apply follows_bind traces_validateIpv4MappedPrefix
        intro _ _ _
        exact traces_applyIpv4Parts (by omega)

theorem traces_zeroFill (room : y + 2 * omitted ≤ 16) :
    Traces (fun b a => b = a ∧ a = y + 2 * omitted) (zeroFill y omitted)
      (HttpServer.zeroFill y omitted) := by
  induction omitted generalizing y with
  | zero => exact follows_pure ⟨rfl, rfl⟩
  | succ omitted ih =>
    apply follows_bind (traces_writeOctet (by omega) 0)
    intro _ _ _
    apply follows_bind (traces_writeOctet (by omega) 0)
    intro _ _ _
    have rest := @ih (y + 2) (by omega)
    rw [show y + 2 + 2 * omitted = y + 2 * (omitted + 1) by omega] at rest
    exact rest

def Behind (parts : List Str) (i limit : Nat) (b : List Str × Nat) (y : Nat) : Prop :=
  b.2 = y ∧ y ≤ limit ∧ b.1.length = parts.length ∧ b.1.drop (i + 1) = parts.drop (i + 1)

theorem traces_applyIpv6Part {last : Bool} (here : parts[i]? = some part)
    (final : last = true ↔ i + 1 = parts.length)
    (room : y + (if part = [] then 2 * omitted else 2) ≤ 16) :
    Traces (Behind parts i (y + if part = [] then 2 * omitted else 2))
      (applyIpv6Part parts i y omitted) (HttpServer.applyIpv6Part part last y omitted) := by
  have inside : i < parts.length := (List.getElem?_eq_some_iff.mp here).1
  apply traces_token here
  apply follows_ite
  · intro star
    rw [if_neg (by simp [star])] at room ⊢
    apply follows_bind (traces_clearBit (by omega))
    intro _ _ _
    apply follows_bind (traces_clearBit (by omega))
    intro _ _ _
    exact follows_pure ⟨rfl, Nat.le_refl _, rfl, rfl⟩
  · intro other
    apply follows_ite
    · intro gap
      rw [if_pos gap] at room ⊢
      have filled := traces_zeroFill room
      rw [← bind_pure (HttpServer.zeroFill y omitted)]
      apply follows_bind filled
      rintro _ _ ⟨rfl, stop⟩
      exact follows_pure ⟨rfl, by omega, rfl, rfl⟩
    · intro filled
      rw [if_neg filled] at room ⊢
      generalize List.replicate (4 - part.length) '0' ++ part = padded
      have kept : (parts.set i padded).length = parts.length := List.length_set
      have later : (parts.set i padded).drop (i + 1) = parts.drop (i + 1) :=
        List.drop_set_of_lt (by omega)
      have at_ : (parts.set i padded)[i]? = some padded := List.getElem?_set_self inside
      apply follows_ite
      · intro group
        apply follows_bind (traces_parseHexPair _)
        rintro hi _ rfl
        apply follows_bind (traces_parseHexPair _)
        rintro lo _ rfl
        apply follows_bind (traces_writeOctet (by omega) hi)
        intro _ _ _
        apply follows_bind (traces_writeOctet (by omega) lo)
        intro _ _ _
        exact follows_pure ⟨rfl, Nat.le_refl _, kept, later⟩
      · intro long
        apply follows_ite
        · intro dotted
          apply follows_bind (traces_parseNestedIpv4 at_ (by rw [kept]; exact final))
          intro _ _ _
          exact follows_pure ⟨rfl, Nat.le_add_right _ _, kept, later⟩
        · intro plain
          exact follows_throw nofun

theorem traces_applyIpv6Parts (room : width omitted parts ≤ 16) :
    Traces (fun _ _ => True) (applyIpv6Parts omitted parts)
      (HttpServer.applyIpv6Parts omitted 0 parts) := by
  have loop : ∀ fuel i (parts : List Str) (y : Nat), parts.length = i + fuel →
      y + width omitted (parts.drop i) ≤ 16 →
      Traces (fun _ _ => True) (forLoop (fun state => state.1.length)
          (fun i state => applyIpv6Part state.1 i state.2 omitted) fuel i (parts, y))
        (HttpServer.applyIpv6Parts omitted y (parts.drop i)) := by
    intro fuel
    induction fuel with
    | zero =>
      intro i parts y length fits
      rw [List.drop_of_length_le (by omega)]
      exact follows_pure trivial
    | succ fuel ih =>
      intro i parts y length fits
      obtain ⟨part, here, rest⟩ := drop_of_getElem (show i < parts.length by omega)
      rw [rest, width] at fits
      have final : decide (parts.drop (i + 1) = []) = true ↔ i + 1 = parts.length := by
        rw [decide_eq_true_eq, List.drop_eq_nil_iff]
        omega
      rw [forLoop, if_pos (show i < parts.length by omega), rest, HttpServer.applyIpv6Parts]
      apply follows_bind (traces_applyIpv6Part here final (by omega))
      rintro ⟨changed, behind⟩ _ ⟨rfl, stop, kept, later⟩
      dsimp only at stop kept later
      have tail := ih (i + 1) changed behind (by omega) (by rw [later]; omega)
      rw [later] at tail
      exact tail
  exact loop parts.length 0 parts 0 (by omega) (by rw [List.drop_zero]; omega)

theorem parseIpv6_eq (ip : Str) :
    HttpServer.parseIpv6 ip =
      if (stringSplit ip ':' false).length > 8 then throw .maxEightParts
      else ofExcept (HttpServer.computeIpv6OmittedSegments (stringSplit ip ':' false)) >>=
        fun result => HttpServer.applyIpv6Parts result.1 0 result.2 := by
  unfold HttpServer.parseIpv6
  dsimp only
  cases HttpServer.computeIpv6OmittedSegments (stringSplit ip ':' false) with
  | error e => rfl
  | ok result => rfl

theorem traces_parseIpv6 {ip : Str} (colon : ':' ∈ ip) :
    Traces (fun _ _ => True) (parseIpv6 ip) (HttpServer.parseIpv6 ip) := by
  have some_ : stringSplit ip ':' false ≠ [] :=
    Fields.fields_ne_nil ':' (List.ne_nil_of_mem colon)
  rw [parseIpv6_eq]
  apply follows_ite
  · intro many
    exact follows_throw nofun
  · intro few
    have computed := follows_outcome traces_computeIpv6OmittedSegments
      (outcome_ofExcept (HttpServer.computeIpv6OmittedSegments (stringSplit ip ':' false)))
    apply follows_bind computed
    rintro _ ⟨omitted, tokens⟩ ⟨rfl, ok⟩
    have fits := width_of_computed some_ (by omega) ok
    rw [← bind_pure (HttpServer.applyIpv6Parts omitted 0 tokens)]
    apply follows_bind (traces_applyIpv6Parts fits)
    intro _ _ _
    exact follows_pure trivial

theorem traces_parse (ip : Str) :
    Traces (fun _ _ => True) (parse ip)
      (if ':' ∈ ip then HttpServer.parseIpv6 ip else HttpServer.parseIpv4 ip) := by
  apply follows_ite
  · intro colon
    exact traces_parseIpv6 colon
  · intro plain
    rw [← bind_pure (parseIpv4 ip), ← bind_pure (HttpServer.parseIpv4 ip)]
    apply follows_bind (traces_parseIpv4 ip)
    intro _ _ _
    exact follows_pure trivial

end Indexed

/-- The run that was logged is the constructor's, it ends with a value or an
    invalid argument, and every access on the way is in bounds. -/
structure StaysInside (ip : Str) : Prop where
  finishes : ∀ value, IpRepresentation.parse ip = .ok value ↔
    outcome (Indexed.parse ip) (IpRepresentation.zero, []) = .ok () ∧
      (after (Indexed.parse ip) (IpRepresentation.zero, [])).1 = value
  throws : ∀ e, IpRepresentation.parse ip = .error e ↔
    outcome (Indexed.parse ip) (IpRepresentation.zero, []) = .error e
  argument : ∀ e, IpRepresentation.parse ip = .error e → e.InvalidArgument
  inside : ∀ access ∈ Indexed.accesses ip, access.Inside

theorem ip_parsing_stays_inside (ip : Str) : StaysInside ip := by
  obtain ⟨new, sound, state, agree⟩ := Indexed.traces_parse ip IpRepresentation.zero []
  have parsed : IpRepresentation.parse ip =
      (outcome (if ':' ∈ ip then parseIpv6 ip else parseIpv4 ip) IpRepresentation.zero).map
        fun _ => after (if ':' ∈ ip then parseIpv6 ip else parseIpv4 ip) IpRepresentation.zero := by
    unfold IpRepresentation.parse outcome after
    cases (if ':' ∈ ip then parseIpv6 ip else parseIpv4 ip) IpRepresentation.zero with
    | ok a t => rfl
    | error e t => rfl
  have inside : ∀ access ∈ Indexed.accesses ip, access.Inside := by
    rw [Indexed.accesses, state]
    exact sound
  have ended : (outcome (Indexed.parse ip) (IpRepresentation.zero, []) = .ok () ∧
      IpRepresentation.parse ip =
        .ok (after (Indexed.parse ip) (IpRepresentation.zero, [])).1) ∨
      ∃ e : IpParseError, e.InvalidArgument ∧
        outcome (Indexed.parse ip) (IpRepresentation.zero, []) = .error e ∧
        IpRepresentation.parse ip = .error e := by
    rw [parsed, state]
    generalize outcome (Indexed.parse ip) (IpRepresentation.zero, []) = logged at agree ⊢
    generalize outcome (if ':' ∈ ip then parseIpv6 ip else parseIpv4 ip) IpRepresentation.zero =
      plain at agree ⊢
    cases agree with
    | ok _ => exact Or.inl ⟨rfl, rfl⟩
    | error admitted => exact Or.inr ⟨_, admitted, rfl, rfl⟩
  rcases ended with ⟨logged, plain⟩ | ⟨e, argument, logged, plain⟩
  · refine ⟨fun value => ?_, fun e => ?_, fun e raised => ?_, inside⟩
    · rw [plain, logged]
      simp
    · rw [plain, logged]
      simp
    · rw [plain] at raised
      cases raised
  · refine ⟨fun value => ?_, fun e => ?_, fun other raised => ?_, inside⟩
    · rw [plain, logged]
      simp
    · rw [plain, logged]
      simp
    · rw [plain] at raised
      cases raised
      exact argument

example : Indexed.accesses "*.300.1.2".toList =
    [.token 0 4, .maskBit 12, .token 1 4, .token 1 4] := by decide

end HttpServer
