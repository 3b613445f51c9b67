import HttpServer.IpParsing

/-!
Address parsing without the array. The constructor fills its sixteen octets from
left to right, so what it has read so far is a list of cells: an octet, or a
wildcard. A text is read when the constructor accepts it, and the value it
builds holds the cells that were read.
-/
namespace HttpServer
open Effect

abbrev Cell := Option UInt8

def clearCell (mask : BitVec 16) (cell : Cell × Nat) : BitVec 16 :=
  if cell.1 = none then mask &&& ~~~(1#16 <<< cell.2) else mask

def represent (cells : List Cell) : IpRepresentation where
  octets i := (cells[i.val]?.getD (some 0)).getD 0
  mask := cells.zipIdx.foldl clearCell IpRepresentation.defaultMask

def readQuadPart (part : Str) : Option Cell :=
  if part = ['*'] then some none
  else
    let piece := (strtol part 10).1
    if piece < 0 ∨ piece > 255 then none else some (some (UInt8.ofNat piece.toNat))

def readQuad (text : Str) : Option (List Cell) :=
  let parts := stringSplit text '.' true
  if parts.length ≠ 4 then none else parts.mapM readQuadPart

def readHexPair (text : Str) : Option UInt8 :=
  if atEnd (strtol text 16).2 then some (UInt8.ofNat ((strtol text 16).1 % 256).toNat) else none

def mappedCells (cells : List Cell) : Bool :=
  (cells.take 10).all (fun cell => cell.getD 0 = 0) &&
    (cells.drop 10).all fun cell => mappedByte (cell.getD 0)

def padGroup (part : Str) : Str := List.replicate (4 - part.length) '0' ++ part

def readPart (omitted : Nat) (last : Bool) (cells : List Cell) (part : Str) : Option (List Cell) :=
  if part = ['*'] then some (cells ++ [none, none])
  else if part = [] then some (cells ++ List.replicate (2 * omitted) (some 0))
  else if (padGroup part).length = 4 then
    (readHexPair ((padGroup part).take 2)).bind fun hi =>
      (readHexPair ((padGroup part).drop 2)).map fun lo => cells ++ [some hi, some lo]
  else if '.' ∈ part ∧ cells.length = 12 ∧ last = true ∧ mappedCells cells = true then
    (readQuad part).map (cells ++ ·)
  else none

def readParts (omitted : Nat) : List Cell → List Str → Option (List Cell)
  | cells, [] => some cells
  | cells, part :: parts =>
    (readPart omitted (parts = []) cells part).bind fun cells => readParts omitted cells parts

def readIpv6 (ip : Str) : Option (List Cell) :=
  let parts := stringSplit ip ':' false
  if parts.length > 8 then none
  else
    match computeIpv6OmittedSegments parts with
    | .error _ => none
    | .ok (omitted, parts) => readParts omitted [] parts

def readIp (ip : Str) : Option (List Cell) :=
  if ':' ∈ ip then readIpv6 ip else (readQuad ip).map (List.replicate 12 (some 0) ++ ·)

theorem mask_snoc (cells : List Cell) (cell : Cell) :
    (represent (cells ++ [cell])).mask = clearCell (represent cells).mask (cell, cells.length) := by
  simp [represent, List.zipIdx_append, List.foldl_append]

theorem octets_snoc (cells : List Cell) (cell : Cell) (i : Fin 16) :
    (represent (cells ++ [cell])).octets i =
      if i.val = cells.length then cell.getD 0 else (represent cells).octets i := by
  simp only [represent]
  rcases Nat.lt_trichotomy i.val cells.length with before | here | behind
  · rw [if_neg (Nat.ne_of_lt before), List.getElem?_append_left before]
  · rw [if_pos here, here, List.getElem?_concat_length]
    rfl
  · have beyond : (cells ++ [cell]).length ≤ i.val := by
      rw [List.length_append, List.length_singleton]
      omega
    rw [if_neg (Nat.ne_of_gt behind), List.getElem?_eq_none beyond,
      List.getElem?_eq_none (Nat.le_of_lt behind)]

theorem success_writeOctet {cells : List Cell} (room : cells.length < 16) (v : UInt8) :
    success (writeOctet cells.length v) (represent cells) =
      some ((), represent (cells ++ [some v])) := by
  rw [writeOctet, dif_pos room, success_modify]
  refine congrArg (fun ip => some ((), ip)) ?_
  have octets : Function.update (represent cells).octets ⟨cells.length, room⟩ v =
      (represent (cells ++ [some v])).octets := by
    funext i
    rw [octets_snoc]
    by_cases here : i.val = cells.length
    · have same : i = ⟨cells.length, room⟩ := Fin.ext here
      rw [if_pos here, same, Function.update_self]
      rfl
    · have other : i ≠ ⟨cells.length, room⟩ := fun same => here (congrArg Fin.val same)
      rw [if_neg here, Function.update_of_ne other]
  have mask : (represent (cells ++ [some v])).mask = (represent cells).mask := mask_snoc cells _
  rw [octets, ← mask]

theorem success_clearBit (cells : List Cell) :
    success (clearBit cells.length) (represent cells) = some ((), represent (cells ++ [none])) := by
  rw [clearBit, success_modify]
  refine congrArg (fun ip => some ((), ip)) ?_
  have octets : (represent (cells ++ [none])).octets = (represent cells).octets := by
    funext i
    rw [octets_snoc]
    split
    · rename_i here
      simp [represent, here]
    · rfl
  have mask : (represent (cells ++ [none])).mask =
      (represent cells).mask &&& ~~~(1#16 <<< cells.length) := mask_snoc cells _
  rw [← octets, ← mask]

variable {cells : List Cell} {omitted : Nat} {parts : List Str} {part : Str}

theorem success_applyIpv4Part (room : cells.length < 16) (part : Str) :
    success (applyIpv4Part cells.length part) (represent cells) =
      (readQuadPart part).map fun cell => ((), represent (cells ++ [cell])) := by
  unfold applyIpv4Part readQuadPart
  split
  · exact success_clearBit cells
  · dsimp only
    split
    · rfl
    · exact success_writeOctet room _

theorem success_applyIpv4Parts {cells : List Cell} {parts : List Str}
    (room : cells.length + parts.length ≤ 16) :
    success (applyIpv4Parts cells.length parts) (represent cells) =
      (parts.mapM readQuadPart).map fun more => ((), represent (cells ++ more)) := by
  induction parts generalizing cells with
  | nil => simp [applyIpv4Parts]
  | cons part parts ih =>
    rw [List.length_cons] at room
    rw [applyIpv4Parts, success_bind, success_applyIpv4Part (by omega), List.mapM_cons]
    cases readQuadPart part with
    | none => rfl
    | some cell =>
      have rest := @ih (cells ++ [cell]) (by rw [List.length_append, List.length_singleton]; omega)
      rw [List.length_append, List.length_singleton] at rest
      simp only [Option.map_some, Option.bind_some, Option.bind_eq_bind, rest, Option.pure_def]
      cases parts.mapM readQuadPart with
      | none => rfl
      | some more => simp

theorem octets_of_lt {cells : List Cell} {i : Fin 16} (filled : i.val < cells.length) :
    (represent cells).octets i = (cells.get ⟨i.val, filled⟩).getD 0 := by
  simp [represent, List.getElem?_eq_getElem filled]

theorem front_zero (twelve : cells.length = 12) :
    ((List.finRange 16).any fun k => decide (k.val < 10) && decide ((represent cells).octets k ≠ 0)) =
      !((cells.take 10).all fun cell => cell.getD 0 = 0) := by
  rw [Bool.eq_iff_iff]
  simp only [List.any_eq_true, List.mem_finRange, true_and, Bool.and_eq_true, decide_eq_true_eq,
    Bool.not_eq_true', List.all_eq_false]
  constructor
  · rintro ⟨k, small, nonzero⟩
    have filled : k.val < cells.length := by omega
    rw [octets_of_lt filled] at nonzero
    exact ⟨_, List.mem_take_iff_getElem.mpr ⟨k.val, by omega, rfl⟩, nonzero⟩
  · rintro ⟨cell, listed, nonzero⟩
    obtain ⟨j, small, rfl⟩ := List.mem_take_iff_getElem.mp listed
    refine ⟨⟨j, by omega⟩, by simp only; omega, ?_⟩
    rw [octets_of_lt (by simp only; omega)]
    exact nonzero

theorem back_mapped (twelve : cells.length = 12) :
    ((cells.drop 10).all fun cell => mappedByte (cell.getD 0)) =
      (mappedByte ((represent cells).octets 10) && mappedByte ((represent cells).octets 11)) := by
  have ten : 10 < cells.length := by omega
  have eleven : 11 < cells.length := by omega
  have rest : cells.drop 10 = [cells.get ⟨10, ten⟩, cells.get ⟨11, eleven⟩] := by
    rw [List.drop_eq_getElem_cons ten, List.drop_eq_getElem_cons eleven,
      List.drop_eq_nil_of_le (by omega)]
    rfl
  rw [rest, @octets_of_lt cells 10 ten, @octets_of_lt cells 11 eleven]
  simp

theorem success_validateIpv4MappedPrefix (twelve : cells.length = 12) :
    success validateIpv4MappedPrefix (represent cells) =
      if mappedCells cells then some ((), represent cells) else none := by
  rw [validateIpv4MappedPrefix, success_get_bind, front_zero twelve, mappedCells,
    back_mapped twelve]
  cases (cells.take 10).all fun cell => decide (cell.getD 0 = 0) with
  | false => rfl
  | true =>
    cases mappedByte ((represent cells).octets 10) with
    | false => rfl
    | true =>
      cases mappedByte ((represent cells).octets 11) with
      | false => rfl
      | true => rfl

theorem success_parseNestedIpv4 (part : Str) (last : Bool) :
    success (parseNestedIpv4 part last cells.length) (represent cells) =
      if cells.length = 12 ∧ last = true ∧ mappedCells cells = true then
        (readQuad part).map fun more => ((), represent (cells ++ more))
      else none := by
  unfold parseNestedIpv4 readQuad
  by_cases twelve : cells.length = 12
  · rw [if_neg (by simpa using twelve)]
    cases last with
    | false => simp
    | true =>
      dsimp only
      by_cases four : (stringSplit part '.' true).length = 4
      · have quad := @success_applyIpv4Parts cells (stringSplit part '.' true) (by omega)
        have equal : ¬((stringSplit part '.' true).length ≠ 4) := fun other => other four
        by_cases mapped : mappedCells cells = true
        · rw [if_neg (by simp), if_neg equal, if_pos ⟨twelve, rfl, mapped⟩, if_neg equal,
            success_bind, success_validateIpv4MappedPrefix twelve, if_pos mapped]
          exact quad
        · rw [if_neg (by simp), if_neg equal, if_neg fun all => mapped all.2.2, success_bind,
            success_validateIpv4MappedPrefix twelve, if_neg mapped]
          rfl
      · rw [if_neg (by simp), if_pos four, if_pos four]
        simp
  · rw [if_pos twelve, if_neg (by simp [twelve])]
    rfl

theorem success_zeroFill (room : cells.length + 2 * omitted ≤ 16) :
    success (zeroFill cells.length omitted) (represent cells) =
      some (cells.length + 2 * omitted,
        represent (cells ++ List.replicate (2 * omitted) (some 0))) := by
  induction omitted generalizing cells with
  | zero => simp [zeroFill]
  | succ omitted ih =>
    have first := success_writeOctet (show cells.length < 16 by omega) 0
    have second := @success_writeOctet (cells ++ [some 0]) (by simp; omega) 0
    have rest := @ih (cells ++ [some 0] ++ [some 0]) (by simp; omega)
    have split : List.replicate (2 * (omitted + 1)) (some 0 : Cell) =
        [some 0] ++ ([some 0] ++ List.replicate (2 * omitted) (some 0)) := rfl
    simp only [List.length_append, List.length_singleton] at second rest
    rw [zeroFill, success_bind, first]
    simp only [Option.bind_some]
    rw [success_bind, second]
    simp only [Option.bind_some]
    rw [rest, split]
    simp only [List.append_assoc]
    congr 2
    omega

theorem success_parseHexPair (text : Str) (ip : IpRepresentation) :
    success (parseHexPair text) ip = (readHexPair text).map fun value => (value, ip) := by
  unfold parseHexPair readHexPair
  dsimp only
  split
  · rfl
  · rfl

def width (omitted : Nat) : List Str → Nat
  | [] => 0
  | part :: parts => (if part = [] then 2 * omitted else 2) + width omitted parts

theorem success_group (room : cells.length + 2 ≤ 16) (hi lo : Str) :
    success (do
      let hi ← parseHexPair hi
      let lo ← parseHexPair lo
      writeOctet cells.length hi
      writeOctet (cells.length + 1) lo
      pure (cells.length + 2)) (represent cells) =
      (readHexPair hi).bind fun hi => (readHexPair lo).map fun lo =>
        (cells.length + 2, represent (cells ++ [some hi, some lo])) := by
  rw [success_bind, success_parseHexPair]
  cases readHexPair hi with
  | none => rfl
  | some hi =>
    simp only [Option.map_some, Option.bind_some]
    rw [success_bind, success_parseHexPair]
    cases readHexPair lo with
    | none => rfl
    | some lo =>
      have first := success_writeOctet (show cells.length < 16 by omega) hi
      have second := @success_writeOctet (cells ++ [some hi]) (by simp; omega) lo
      simp only [List.length_append, List.length_singleton, List.append_assoc,
        List.singleton_append] at second
      simp only [Option.map_some, Option.bind_some]
      rw [success_bind, first]
      simp only [Option.bind_some]
      rw [success_bind, second]
      rfl

theorem padGroup_long (long : (padGroup part).length ≠ 4) : padGroup part = part := by
  have none_ : 4 - part.length = 0 := by
    rw [padGroup, List.length_append, List.length_replicate] at long
    omega
  rw [padGroup, none_]
  rfl

/-- The octet position behind a part; the parser does not count a dotted quad. -/
def partEnd (omitted y : Nat) (part : Str) : Nat :=
  if part = ['*'] then y + 2
  else if part = [] then y + 2 * omitted
  else if (padGroup part).length = 4 then y + 2
  else y

theorem success_applyIpv6Part (last : Bool)
    (room : cells.length + (if part = [] then 2 * omitted else 2) ≤ 16) :
    success (applyIpv6Part part last cells.length omitted) (represent cells) =
      (readPart omitted last cells part).map fun after =>
        (partEnd omitted cells.length part, represent after) := by
  unfold applyIpv6Part readPart partEnd
  by_cases star : part = ['*']
  · have first := success_clearBit cells
    have second := success_clearBit (cells ++ [none])
    rw [List.length_append, List.length_singleton] at second
    rw [if_pos star, if_pos star, if_pos star, success_bind, first]
    simp only [Option.bind_some]
    rw [success_bind, second]
    simp
  · rw [if_neg star, if_neg star, if_neg star]
    by_cases gap : part = []
    · rw [if_pos gap] at room
      rw [if_pos gap, if_pos gap, if_pos gap, success_zeroFill room]
      rfl
    · rw [if_neg gap] at room
      rw [if_neg gap, if_neg gap, if_neg gap]
      have padded : List.replicate (4 - part.length) '0' ++ part = padGroup part := rfl
      rw [padded]
      by_cases group : (padGroup part).length = 4
      · rw [if_pos group, if_pos group, if_pos group, success_group (by omega)]
        cases readHexPair ((padGroup part).take 2) with
        | none => rfl
        | some hi =>
          cases readHexPair ((padGroup part).drop 2) with
          | none => rfl
          | some lo => rfl
      · rw [if_neg group, if_neg group, if_neg group, padGroup_long group]
        by_cases dotted : '.' ∈ part
        · rw [if_pos dotted, success_bind, success_parseNestedIpv4]
          by_cases ready : cells.length = 12 ∧ last = true ∧ mappedCells cells = true
          · rw [if_pos ready, if_pos ⟨dotted, ready⟩]
            cases readQuad part with
            | none => rfl
            | some more => rfl
          · rw [if_neg ready, if_neg fun all => ready all.2]
            rfl
        · rw [if_neg dotted, if_neg fun all => dotted all.1]
          rfl

theorem length_readPart {after : List Cell} (read : readPart omitted false cells part = some after) :
    after.length = partEnd omitted cells.length part := by
  unfold readPart at read
  unfold partEnd
  by_cases star : part = ['*']
  · rw [if_pos star] at read ⊢
    cases read
    rw [List.length_append]
    rfl
  · rw [if_neg star] at read ⊢
    by_cases gap : part = []
    · rw [if_pos gap] at read ⊢
      cases read
      rw [List.length_append, List.length_replicate]
    · rw [if_neg gap] at read ⊢
      by_cases group : (padGroup part).length = 4
      · rw [if_pos group] at read ⊢
        obtain ⟨hi, -, rest⟩ := Option.bind_eq_some_iff.mp read
        obtain ⟨lo, -, rfl⟩ := Option.map_eq_some_iff.mp rest
        rw [List.length_append]
        rfl
      · rw [if_neg group, if_neg fun all => absurd all.2.2.1 (by decide)] at read
        cases read

theorem partEnd_le {omitted : Nat} (y : Nat) (part : Str) :
    partEnd omitted y part ≤ y + (if part = [] then 2 * omitted else 2) := by
  unfold partEnd
  by_cases gap : part = []
  · rw [if_neg (by simp [gap]), if_pos gap, if_pos gap]
  · rw [if_neg gap, if_neg gap]
    split
    · omega
    · split
      · omega
      · omega

theorem success_applyIpv6Parts {omitted : Nat} {cells : List Cell} {parts : List Str}
    (room : cells.length + width omitted parts ≤ 16) :
    success (applyIpv6Parts omitted cells.length parts) (represent cells) =
      (readParts omitted cells parts).map fun cells => ((), represent cells) := by
  induction parts generalizing cells with
  | nil => rfl
  | cons part parts ih =>
    rw [width] at room
    rw [applyIpv6Parts, readParts, success_bind, success_applyIpv6Part _ (by omega)]
    cases parts with
    | nil =>
      cases readPart omitted (decide (([] : List Str) = [])) cells part with
      | none => rfl
      | some after => rfl
    | cons next parts =>
      have going : decide (next :: parts = []) = false := rfl
      rw [going]
      cases read : readPart omitted false cells part with
      | none => rfl
      | some after =>
        have ends := length_readPart read
        have bound := @partEnd_le omitted cells.length part
        have rest := @ih after (by omega)
        rw [ends] at rest
        exact rest

theorem computeIpv6OmittedSegments_single (some_ : parts ≠ []) (few : parts.length ≤ 8)
    (single : parts.countP (· = []) ≤ 1) :
    computeIpv6OmittedSegments parts = .ok (9 - parts.length, parts) := by
  have positive := List.length_pos_iff.mpr some_
  have omitted : 8 - (parts.length - 1) = 9 - parts.length := by omega
  rw [computeIpv6OmittedSegments, omitted, if_neg (by omega), if_pos single]

theorem countP_empty_eq_zero : parts.countP (· = []) = 0 ↔ [] ∉ parts := by
  rw [List.countP_eq_zero]
  constructor
  · intro none_ listed
    exact none_ [] listed (by simp)
  · intro absent part listed same
    have empty : part = [] := by simpa using same
    exact absent (empty ▸ listed)

theorem computeIpv6OmittedSegments_leading {rest : List Str} (few : rest.length ≤ 6)
    (full : [] ∉ rest) :
    computeIpv6OmittedSegments ([] :: [] :: rest) =
      .ok ((if '.' ∈ rest.getLast?.getD [] then 7 else 8) - rest.length, [] :: rest) := by
  have count : ([] :: [] :: rest).countP (· = []) = 2 := by
    simp [countP_empty_eq_zero.mpr full]
  have last : '.' ∈ ([] :: [] :: rest).getLast?.getD [] ↔ '.' ∈ rest.getLast?.getD [] := by
    cases rest with
    | nil => simp
    | cons part rest => simp
  rw [computeIpv6OmittedSegments, count]
  simp only [List.length_cons, last, List.tail_cons]
  rw [if_neg (by omega), if_neg (by omega), if_pos (by simp)]
  split
  · rw [show 8 - (rest.length + 1 + 1 - 1) - 1 + 1 = 7 - rest.length by omega]
  · rw [show 8 - (rest.length + 1 + 1 - 1) + 1 = 8 - rest.length by omega]

theorem computeIpv6OmittedSegments_cases {result : Nat × List Str} (few : parts.length ≤ 8)
    (computed : computeIpv6OmittedSegments parts = .ok result) :
    parts.countP (· = []) ≤ 1 ∨ ∃ rest, parts = [] :: [] :: rest ∧ [] ∉ rest := by
  rw [computeIpv6OmittedSegments] at computed
  dsimp only at computed
  rw [if_neg (by omega)] at computed
  split at computed
  · rename_i single
    exact Or.inl single
  · split at computed
    · rename_i leading
      obtain ⟨two, first, second⟩ := leading
      match parts, two, first, second with
      | one :: other :: rest, two, first, second =>
        have empty : one = [] := by simpa using first
        have empty' : other = [] := by simpa using second
        subst empty empty'
        refine Or.inr ⟨rest, rfl, countP_empty_eq_zero.mp ?_⟩
        simpa using two
    · cases computed

theorem width_eq (omitted : Nat) (parts : List Str) :
    width omitted parts + 2 * parts.countP (· = []) =
      2 * parts.length + 2 * omitted * parts.countP (· = []) := by
  induction parts with
  | nil => rfl
  | cons part parts ih =>
    rw [width, List.countP_cons, List.length_cons]
    by_cases gap : part = []
    · simp only [gap, decide_true, if_true, Nat.mul_add, Nat.mul_one]
      omega
    · simp only [gap, decide_false, Bool.false_eq_true, if_false, Nat.add_zero]
      omega

theorem width_of_computed {tokens : List Str} (some_ : parts ≠ []) (few : parts.length ≤ 8)
    (computed : computeIpv6OmittedSegments parts = .ok (omitted, tokens)) :
    width omitted tokens ≤ 16 := by
  have positive := List.length_pos_iff.mpr some_
  rcases computeIpv6OmittedSegments_cases few computed with single | ⟨rest, rfl, full⟩
  · rw [computeIpv6OmittedSegments_single some_ few single] at computed
    cases computed
    have total := width_eq (9 - parts.length) parts
    rcases Nat.le_one_iff_eq_zero_or_eq_one.mp single with none_ | one
    · rw [none_] at total
      omega
    · rw [one] at total
      omega
  · rw [List.length_cons, List.length_cons] at few
    rw [computeIpv6OmittedSegments_leading (by omega) full] at computed
    cases computed
    have total := width_eq ((if '.' ∈ rest.getLast?.getD [] then 7 else 8) - rest.length)
      ([] :: rest)
    have one : ([] :: rest).countP (· = []) = 1 := by simp [countP_empty_eq_zero.mpr full]
    have most : (if '.' ∈ rest.getLast?.getD [] then 7 else 8) ≤ 8 := by
      split
      · omega
      · omega
    rw [one, List.length_cons] at total
    generalize (if '.' ∈ rest.getLast?.getD [] then 7 else 8) = groups at total most ⊢
    omega

theorem success_parseIpv6 {ip : Str} (colon : ':' ∈ ip) :
    success (parseIpv6 ip) IpRepresentation.zero =
      (readIpv6 ip).map fun cells => ((), represent cells) := by
  have some_ : stringSplit ip ':' false ≠ [] :=
    Fields.fields_ne_nil ':' (List.ne_nil_of_mem colon)
  unfold parseIpv6 readIpv6
  dsimp only
  by_cases few : (stringSplit ip ':' false).length ≤ 8
  · rw [if_neg (by omega), if_neg (by omega)]
    cases computed : computeIpv6OmittedSegments (stringSplit ip ':' false) with
    | error e => rfl
    | ok result =>
      obtain ⟨omitted, tokens⟩ := result
      have fits := width_of_computed some_ few computed
      exact @success_applyIpv6Parts omitted [] tokens (by simpa using fits)
  · rw [if_pos (by omega), if_pos (by omega)]
    rfl

theorem success_parseIpv4 (ip : Str) :
    success (parseIpv4 ip) IpRepresentation.zero =
      (readQuad ip).map fun cells => ((), represent (List.replicate 12 (some 0) ++ cells)) := by
  have start : IpRepresentation.zero = represent (List.replicate 12 (some 0)) := by
    have octets : IpRepresentation.zero.octets =
        (represent (List.replicate 12 (some 0))).octets := by
      funext i
      simp only [represent, List.getElem?_replicate]
      split
      · rfl
      · rfl
    have mask : IpRepresentation.zero.mask = (represent (List.replicate 12 (some 0))).mask := rfl
    exact congrArg₂ IpRepresentation.mk octets mask
  unfold parseIpv4 readQuad
  dsimp only
  by_cases four : (stringSplit ip '.' true).length = 4
  · have quad := @success_applyIpv4Parts (List.replicate 12 (some 0)) (stringSplit ip '.' true)
      (by rw [List.length_replicate]; omega)
    rw [if_neg fun other => other four, if_neg fun other => other four, start]
    exact quad
  · rw [if_pos four, if_pos four]
    rfl

/-- The constructor accepts what can be read and holds the cells that were read. -/
theorem parse_eq_ok_iff (ip : Str) (value : IpRepresentation) :
    IpRepresentation.parse ip = .ok value ↔ ∃ cells, readIp ip = some cells ∧
      value = represent cells := by
  have run : success (if ':' ∈ ip then parseIpv6 ip else parseIpv4 ip) IpRepresentation.zero =
      (readIp ip).map fun cells => ((), represent cells) := by
    unfold readIp
    split
    · rename_i colon
      exact success_parseIpv6 colon
    · rw [success_parseIpv4, Option.map_map]
      rfl
  unfold IpRepresentation.parse
  rw [success] at run
  cases result : (if ':' ∈ ip then parseIpv6 ip else parseIpv4 ip) IpRepresentation.zero with
  | error e t =>
    rw [result] at run
    have unread : readIp ip = none := by
      cases read : readIp ip with
      | none => rfl
      | some cells =>
        rw [read] at run
        cases run
    simp [unread]
  | ok a t =>
    rw [result] at run
    obtain ⟨cells, read, same⟩ := Option.map_eq_some_iff.mp run.symm
    obtain ⟨-, rfl⟩ := Prod.mk.inj same
    simp only [Except.ok.injEq, read, Option.some.injEq]
    constructor
    · intro same
      exact ⟨cells, rfl, same.symm⟩
    · rintro ⟨_, rfl, rfl⟩
      rfl

end HttpServer
