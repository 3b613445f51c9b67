import HttpServer.IpNumerals

/-!
Which address texts the constructor lets through. Its splitter drops empty
tokens of a dotted quad and the field behind a last colon, and `strtol` stops at
the first character it does not know, so more than the well-formed texts is
accepted; what has to hold of an accepted text to be well formed is that its
parts are plain.
-/
namespace HttpServer
open Fields

def WellFormedQuad (text : Str) : Prop :=
  (text.splitOn '.').length = 4 ∧ ∀ part ∈ text.splitOn '.', part = ['*'] ∨ DecimalOctet part

def GroupPart (part : Str) : Prop := part = [] ∨ part = ['*'] ∨ HexGroup part

def Grouped (text : Str) : Prop := [] ∉ text.splitOn ':'

def SingleGap (text : Str) : Prop :=
  Grouped text ∨ ∃ front back, text = front ++ ':' :: ':' :: back ∧
    (front = [] ∨ Grouped front) ∧ (back = [] ∨ Grouped back)

def WellFormedIp (text : Str) : Prop :=
  if ':' ∈ text then
    (∀ part ∈ (text.splitOn ':').dropLast, GroupPart part) ∧
      (∀ part, (text.splitOn ':').getLast? = some part → GroupPart part ∨ WellFormedQuad part) ∧
      SingleGap text
  else WellFormedQuad text

def PlainQuad (text : Str) : Prop :=
  text.count '.' = 3 ∧ ∀ part ∈ text.splitOn '.', part = ['*'] ∨ ∀ c ∈ part, c.isDigit = true

def PlainPart (part : Str) : Prop :=
  part = ['*'] ∨ (∀ c ∈ part, isHexDigit c = true) ∨ ('.' ∈ part ∧ PlainQuad part)

/-- No lone colon at an end, and parts without signs, blanks and other
    characters the number conversions skip or stop at. -/
def PlainIp (text : Str) : Prop :=
  if ':' ∈ text then
    (text.head? = some ':' → [':', ':'] <+: text) ∧
      (text.getLast? = some ':' → [':', ':'] <:+ text) ∧ ∀ part ∈ text.splitOn ':', PlainPart part
  else PlainQuad text

theorem length_splitOn (sep : Char) (s : Str) : (s.splitOn sep).length = s.count sep + 1 := by
  induction s with
  | nil => rfl
  | cons c s ih =>
    rw [List.splitOn_cons_eq_if_modifyHead, List.count_cons]
    split
    · rw [List.length_cons, ih]
    · rw [List.length_modifyHead, ih]

theorem stringSplit_eq_splitOn (s : Str) (sep : Char) :
    stringSplit s sep true = (s.splitOn sep).filter (· ≠ []) := by
  rw [stringSplit, if_pos rfl, splitOn_eq_fields]
  split
  · simp
  · rfl

theorem mapM_some {α β : Type} {f : α → Option β} {l : List α} {r : List β}
    (all : l.mapM f = some r) : ∀ x ∈ l, ∃ y, f x = some y := by
  induction l generalizing r with
  | nil => simp
  | cons a l ih =>
    rw [List.mapM_cons] at all
    obtain ⟨b, first, all⟩ := Option.bind_eq_some_iff.mp all
    obtain ⟨bs, rest, -⟩ := Option.bind_eq_some_iff.mp all
    intro x listed
    rcases List.mem_cons.mp listed with rfl | later
    · exact ⟨b, first⟩
    · exact ih rest x later

variable {text part : Str} {cells : List Cell} {parts : List Str}

theorem readQuad_some (read : readQuad text = some cells) :
    (stringSplit text '.' true).length = 4 ∧
      ∀ part ∈ stringSplit text '.' true, ∃ cell, readQuadPart part = some cell := by
  unfold readQuad at read
  dsimp only at read
  split at read
  · cases read
  · rename_i four
    exact ⟨by simpa using four, mapM_some read⟩

theorem wellFormedQuad_iff (read : readQuad text = some cells) :
    WellFormedQuad text ↔ PlainQuad text := by
  obtain ⟨four, parts⟩ := readQuad_some read
  rw [stringSplit_eq_splitOn] at four parts
  have count := length_splitOn '.' text
  constructor
  · rintro ⟨length, formed⟩
    refine ⟨by omega, fun part listed => ?_⟩
    rcases formed part listed with star | decimal
    · exact Or.inl star
    · exact Or.inr decimal.2.1
  · rintro ⟨dots, plain⟩
    have length : (text.splitOn '.').length = 4 := by omega
    -- as many tokens as fields: no field is empty
    have full : ∀ part ∈ text.splitOn '.', part ≠ [] := by
      intro part listed
      have kept := List.length_filter_eq_length_iff.mp (four.trans length.symm) part listed
      simpa using kept
    refine ⟨length, fun part listed => ?_⟩
    rcases plain part listed with star | digits
    · exact Or.inl star
    · have nonempty := full part listed
      obtain ⟨cell, some_⟩ := parts part (List.mem_filter.mpr ⟨listed, by simpa using nonempty⟩)
      rw [readQuadPart_digits digits] at some_
      split at some_
      · rename_i small
        exact Or.inr ⟨nonempty, digits, small⟩
      · cases some_

def ReadGroup (part : Str) : Prop :=
  part = [] ∨ part = ['*'] ∨ (part.length ≤ 4 ∧
    (readHexPair ((padGroup part).take 2)).isSome = true ∧
      (readHexPair ((padGroup part).drop 2)).isSome = true)

def ReadNested (part : Str) : Prop :=
  4 < part.length ∧ '.' ∈ part ∧ ∃ cells, readQuad part = some cells

theorem readPart_some {omitted : Nat} {last : Bool} {cells' : List Cell}
    (read : readPart omitted last cells part = some cells') :
    ReadGroup part ∨ (last = true ∧ ReadNested part) := by
  unfold readPart at read
  split at read
  · rename_i star
    exact Or.inl (Or.inr (Or.inl star))
  · split at read
    · rename_i empty
      exact Or.inl (Or.inl empty)
    · split at read
      · rename_i four
        obtain ⟨hi, high, rest⟩ := Option.bind_eq_some_iff.mp read
        obtain ⟨lo, low, -⟩ := Option.map_eq_some_iff.mp rest
        have short : part.length ≤ 4 := by
          rw [padGroup, List.length_append] at four
          omega
        exact Or.inl (Or.inr (Or.inr ⟨short, by rw [high]; rfl, by rw [low]; rfl⟩))
      · rename_i long
        split at read
        · rename_i nested
          obtain ⟨quad, some_, -⟩ := Option.map_eq_some_iff.mp read
          have wide : 4 < part.length := by
            by_contra short
            exact long (length_padGroup (by omega))
          exact Or.inr ⟨nested.2.2.1, wide, nested.1, quad, some_⟩
        · cases read

theorem readParts_some {omitted : Nat} {cells' : List Cell}
    (read : readParts omitted cells parts = some cells') :
    (∀ part ∈ parts.dropLast, ReadGroup part) ∧
      ∀ part, parts.getLast? = some part → ReadGroup part ∨ ReadNested part := by
  induction parts generalizing cells with
  | nil => simp
  | cons part parts ih =>
    obtain ⟨between, first, rest⟩ := Option.bind_eq_some_iff.mp read
    obtain ⟨front, back⟩ := ih rest
    rcases readPart_some first with group | ⟨last, nested⟩
    · cases parts with
      | nil =>
        refine ⟨by simp, fun other same => ?_⟩
        cases Option.some.inj same
        exact Or.inl group
      | cons next parts =>
        refine ⟨fun other listed => ?_, fun other same => back other (by simpa using same)⟩
        rcases List.mem_cons.mp listed with rfl | later
        · exact group
        · exact front other later
    · have only : parts = [] := by simpa using last
      subst only
      refine ⟨by simp, fun other same => ?_⟩
      cases Option.some.inj same
      exact Or.inr nested

theorem readHexPair_dot (chars : ∀ c ∈ text, isHexDigit c = true ∨ c = '.' ∨ c = '*')
    (dot : '.' ∈ text) : readHexPair text = none := by
  have plain : ∀ c ∈ text, c ∉ markChars := by
    intro c listed
    rcases chars c listed with digit | rfl | rfl
    · exact not_mark_of_isHexDigit digit
    · decide
    · decide
  have rest : ∃ c, (text.dropWhile fun c => (digitValue 16 c).isSome).head? = some c ∧ c ≠ '\x00' := by
    cases behind : text.dropWhile fun c => (digitValue 16 c).isSome with
    | nil =>
      have digit := List.dropWhile_eq_nil_iff.mp behind '.' dot
      exact absurd digit (by decide)
    | cons c tail =>
      refine ⟨c, rfl, ?_⟩
      have listed : c ∈ text := (List.dropWhile_sublist _).subset (by rw [behind]; simp)
      rcases chars c listed with digit | rfl | rfl
      · rintro rfl
        exact absurd digit (by decide)
      · decide
      · decide
  obtain ⟨c, head, other⟩ := rest
  have open_ : atEnd (strtol text 16).2 = false := by
    rw [strtol_plain plain]
    cases tail : text.dropWhile fun c => (digitValue 16 c).isSome with
    | nil =>
      rw [tail] at head
      cases head
    | cons d tail' =>
      rw [tail] at head
      cases Option.some.inj head
      simp [atEnd, other]
  rw [readHexPair, open_]
  rfl

theorem mem_splitOn {sep c : Char} {s : Str} (listed : c ∈ s) :
    c = sep ∨ ∃ part ∈ s.splitOn sep, c ∈ part := by
  have joined := @List.intercalate_splitOn Char s _ _ sep
  rw [← joined] at listed
  rcases mem_intercalate listed with separator | part
  · exact Or.inl (by simpa using separator)
  · exact Or.inr part

theorem groupPart_of_plain (read : ReadGroup part) (plain : PlainPart part) : GroupPart part := by
  rcases read with empty | star | ⟨short, high, low⟩
  · exact Or.inl empty
  · exact Or.inr (Or.inl star)
  · by_cases some_ : part = []
    · exact Or.inl some_
    · rcases plain with star | hex | ⟨dot, -, parts⟩
      · exact Or.inr (Or.inl star)
      · exact Or.inr (Or.inr ⟨some_, short, hex⟩)
      · -- one of the two pairs has the dot
        have chars : ∀ c ∈ padGroup part, isHexDigit c = true ∨ c = '.' ∨ c = '*' := by
          intro c listed
          rcases List.mem_append.mp listed with zero | own
          · rw [List.eq_of_mem_replicate zero]
            exact Or.inl (by decide)
          · rcases @mem_splitOn '.' c part own with separator | ⟨piece, member, inside⟩
            · exact Or.inr (Or.inl separator)
            · rcases parts piece member with rfl | digits
              · exact Or.inr (Or.inr (by simpa using inside))
              · exact Or.inl (isHexDigit_of_isDigit (digits c inside))
        have somewhere : '.' ∈ (padGroup part).take 2 ∨ '.' ∈ (padGroup part).drop 2 := by
          rw [← List.mem_append, List.take_append_drop]
          exact List.mem_append_right _ dot
        rcases somewhere with first | second
        · rw [readHexPair_dot (fun c listed => chars c (List.mem_of_mem_take listed)) first] at high
          cases high
        · rw [readHexPair_dot (fun c listed => chars c (List.mem_of_mem_drop listed)) second] at low
          cases low

theorem wellFormedQuad_of_plain (read : ReadNested part) (plain : PlainPart part) :
    WellFormedQuad part := by
  obtain ⟨long, dot, cells, quad⟩ := read
  rcases plain with rfl | hex | ⟨-, parts⟩
  · simp at long
  · exact absurd (hex '.' dot) (by decide)
  · exact (wellFormedQuad_iff quad).mpr parts

theorem plainPart_of_group (group : GroupPart part) : PlainPart part := by
  rcases group with rfl | star | hex
  · exact Or.inr (Or.inl (by simp))
  · exact Or.inl star
  · exact Or.inr (Or.inl hex.2.2)

theorem plainPart_of_quad (quad : WellFormedQuad part) : PlainPart part := by
  obtain ⟨four, parts⟩ := quad
  have count := length_splitOn '.' part
  have dots : part.count '.' = 3 := by omega
  refine Or.inr (Or.inr ⟨List.count_pos_iff.mp (by omega), dots, fun piece listed => ?_⟩)
  rcases parts piece listed with star | decimal
  · exact Or.inl star
  · exact Or.inr decimal.2.1

theorem splitOn_gap (front back : Str) :
    (front ++ ':' :: ':' :: back).splitOn ':' =
      front.splitOn ':' ++ [] :: back.splitOn ':' := by
  have behind : (':' :: back).splitOn ':' = [] :: back.splitOn ':' :=
    @List.splitOn_append_cons_self Char _ _ ':' [] back
  rw [List.splitOn_append_cons_self, behind]

theorem splitOn_of_last (some_ : text ≠ []) :
    (text.getLast? = some ':' → text.splitOn ':' = fields ':' text ++ [[]]) ∧
      (text.getLast? ≠ some ':' → text.splitOn ':' = fields ':' text) := by
  constructor
  · intro last
    rw [splitOn_eq_fields, if_pos (Or.inr last)]
  · intro other
    rw [splitOn_eq_fields, if_neg]
    rintro (empty | last)
    · exact some_ empty
    · exact other last

theorem head_of_splitOn (some_ : text ≠ []) (split : text.splitOn ':' = [] :: parts) :
    text.head? = some ':' := by
  cases text with
  | nil => exact absurd rfl some_
  | cons c rest =>
    rw [List.splitOn_cons_eq_if_modifyHead] at split
    split at split
    · rename_i colon
      simpa using colon
    · obtain ⟨part, others, whole⟩ := List.exists_cons_of_ne_nil (List.splitOn_ne_nil ':' rest)
      rw [whole, List.modifyHead_cons] at split
      cases split

theorem splitOn_head (first : text.head? = some ':') : [] ∈ text.splitOn ':' := by
  cases text with
  | nil => cases first
  | cons c rest =>
    cases Option.some.inj first
    rw [List.splitOn_cons_eq_if_modifyHead, if_pos (by decide)]
    exact List.mem_cons_self

theorem splitOn_last (last : text.getLast? = some ':') : [] ∈ text.splitOn ':' := by
  rw [splitOn_eq_fields, if_pos (Or.inr last)]
  exact List.mem_append_right _ (by simp)

theorem grouped_intercalate (some_ : parts ≠ []) (clean : ∀ part ∈ parts, ':' ∉ part)
    (full : [] ∉ parts) : Grouped ([':'].intercalate parts) := by
  rw [Grouped, List.splitOn_intercalate ':' clean some_]
  exact full

theorem readIpv6_some (colon : ':' ∈ text) (read : readIpv6 text = some cells) :
    ((∀ part ∈ (fields ':' text).dropLast, ReadGroup part) ∧
      ∀ part, (fields ':' text).getLast? = some part → ReadGroup part ∨ ReadNested part) ∧
      ((fields ':' text).countP (· = []) ≤ 1 ∨
        ∃ rest, fields ':' text = [] :: [] :: rest ∧ [] ∉ rest) := by
  have some_ : fields ':' text ≠ [] := fields_ne_nil ':' (List.ne_nil_of_mem colon)
  have tokens : stringSplit text ':' false = fields ':' text := rfl
  unfold readIpv6 at read
  rw [tokens] at read
  generalize fields ':' text = parts at read some_ ⊢
  dsimp only at read
  split at read
  · cases read
  · rename_i few
    split at read
    · cases read
    · rename_i omitted left computed
      have few : parts.length ≤ 8 := by omega
      have shape := computeIpv6OmittedSegments_cases few computed
      refine ⟨?_, shape⟩
      rcases shape with single | ⟨rest, rfl, full⟩
      · rw [computeIpv6OmittedSegments_single some_ few single] at computed
        cases computed
        exact readParts_some read
      · rw [List.length_cons, List.length_cons] at few
        rw [computeIpv6OmittedSegments_leading (by omega) full] at computed
        cases computed
        obtain ⟨front, last⟩ := readParts_some read
        refine ⟨fun part listed => ?_, fun part same => last part (by simpa using same)⟩
        rcases List.mem_cons.mp listed with rfl | later
        · exact Or.inl rfl
        · exact front part later

theorem singleGap_of_middle {front back : List Str} (split : text.splitOn ':' = front ++ [] :: back)
    (clean : ∀ part ∈ front ++ [] :: back, ':' ∉ part) (someFront : front ≠ [])
    (someBack : back ≠ []) (fullFront : [] ∉ front) (fullBack : [] ∉ back) : SingleGap text := by
  have joined := @List.intercalate_splitOn Char text _ _ ':'
  rw [split] at joined
  refine Or.inr ⟨[':'].intercalate front, [':'].intercalate back, ?_, Or.inr ?_, Or.inr ?_⟩
  · rw [← joined, intercalate_append [':'] someFront (by simp),
      show [] :: back = [[]] ++ back from rfl, intercalate_append [':'] (by simp) someBack]
    rfl
  · exact grouped_intercalate someFront
      (fun part listed => clean part (List.mem_append_left _ listed)) fullFront
  · exact grouped_intercalate someBack
      (fun part listed => clean part (List.mem_append_right _ (List.mem_cons_of_mem _ listed)))
      fullBack

theorem singleGap_of_leading {rest : List Str} (split : text.splitOn ':' = [] :: [] :: rest)
    (clean : ∀ part ∈ rest, ':' ∉ part) (someRest : rest ≠ []) (full : [] ∉ rest) :
    SingleGap text := by
  have joined := @List.intercalate_splitOn Char text _ _ ':'
  rw [split] at joined
  refine Or.inr ⟨[], [':'].intercalate rest, ?_, Or.inl rfl,
    Or.inr (grouped_intercalate someRest clean full)⟩
  rw [← joined, show [] :: [] :: rest = [[], []] ++ rest from rfl,
    intercalate_append [':'] (by simp) someRest]
  rfl

theorem last_of_splitOn {text : Str} {front : List Str} (split : text.splitOn ':' = front ++ [[]])
    (some_ : front ≠ []) : text.getLast? = some ':' := by
  have joined := @List.intercalate_splitOn Char text _ _ ':'
  rw [split, intercalate_append [':'] some_ (by simp)] at joined
  rw [← joined]
  simp

theorem singleGap_inner (some_ : text ≠ []) (other : text.getLast? ≠ some ':')
    (first : text.head? = some ':' → [':', ':'] <+: text)
    (shape : (text.splitOn ':').countP (· = []) ≤ 1 ∨
      ∃ rest, text.splitOn ':' = [] :: [] :: rest ∧ [] ∉ rest) : SingleGap text := by
  have clean : ∀ part ∈ text.splitOn ':', ':' ∉ part := by
    intro part listed
    rw [(splitOn_of_last some_).2 other] at listed
    exact sep_not_mem_fields ':' text part listed
  rcases shape with single | ⟨rest, split, full⟩
  · by_cases grouped : [] ∉ text.splitOn ':'
    · exact Or.inl grouped
    · obtain ⟨front, back, split⟩ := List.append_of_mem (not_not.mp grouped)
      rw [split, List.countP_append, List.countP_cons_of_pos (by simp)] at single
      rw [split] at clean
      have fullFront : [] ∉ front := countP_empty_eq_zero.mp (by omega)
      have fullBack : [] ∉ back := countP_empty_eq_zero.mp (by omega)
      have someFront : front ≠ [] := by
        -- a leading colon is a leading `::`, which gives two empty parts
        rintro rfl
        obtain ⟨more, doubled⟩ := first (head_of_splitOn some_ split)
        have twice := splitOn_gap [] more
        rw [List.nil_append, show ':' :: ':' :: more = [':', ':'] ++ more from rfl, doubled,
          split] at twice
        apply fullBack
        rw [(List.cons.inj twice).2]
        exact List.mem_cons_self
      have someBack : back ≠ [] := by
        rintro rfl
        exact other (last_of_splitOn split someFront)
      exact singleGap_of_middle split clean someFront someBack fullFront fullBack
  · have someRest : rest ≠ [] := by
      rintro rfl
      exact other (@last_of_splitOn text [[]] split (by simp))
    rw [split] at clean
    exact singleGap_of_leading split (fun part listed => clean part (by simp [listed])) someRest full

theorem singleGap_trailing {front : Str}
    (shape : (front.splitOn ':' ++ [[]]).countP (· = []) ≤ 1 ∨
      ∃ rest, front.splitOn ':' ++ [[]] = [] :: [] :: rest ∧ [] ∉ rest) :
    SingleGap (front ++ [':', ':']) := by
  refine Or.inr ⟨front, [], rfl, ?_, Or.inl rfl⟩
  rcases shape with single | ⟨rest, split, full⟩
  · rw [List.countP_append, List.countP_cons_of_pos (by simp)] at single
    exact Or.inr (countP_empty_eq_zero.mp (by omega))
  · rcases List.eq_nil_or_concat rest with rfl | ⟨others, last, rfl⟩
    · have whole : front.splitOn ':' = [[]] := by
        have same : front.splitOn ':' ++ [[]] = [[]] ++ [[]] := split
        exact List.append_cancel_right same
      have joined := @List.intercalate_splitOn Char front _ _ ':'
      rw [whole] at joined
      exact Or.inl joined.symm
    · have same : front.splitOn ':' ++ [[]] = ([] :: [] :: others) ++ [last] := by
        rw [split, List.concat_eq_append]
        rfl
      have empty : [[]] = [last] := List.append_inj_right' same rfl
      have listed : [] ∈ others.concat last := by
        rw [List.concat_eq_append, ← empty]
        exact List.mem_append_right _ List.mem_cons_self
      exact absurd listed full

theorem parts_of_plain (colon : ':' ∈ text) (read : readIpv6 text = some cells)
    (first : text.head? = some ':' → [':', ':'] <+: text)
    (last : text.getLast? = some ':' → [':', ':'] <:+ text)
    (plain : ∀ part ∈ text.splitOn ':', PlainPart part) :
    (∀ part ∈ (text.splitOn ':').dropLast, GroupPart part) ∧
      (∀ part, (text.splitOn ':').getLast? = some part → GroupPart part ∨ WellFormedQuad part) ∧
      SingleGap text := by
  have some_ : text ≠ [] := List.ne_nil_of_mem colon
  obtain ⟨⟨groups, final⟩, shape⟩ := readIpv6_some colon read
  by_cases ends : text.getLast? = some ':'
  · obtain ⟨front, rfl⟩ := last ends
    have split : (front ++ [':', ':']).splitOn ':' = front.splitOn ':' ++ [[]] ++ [[]] := by
      rw [splitOn_gap front []]
      simp
    have tokens : fields ':' (front ++ [':', ':']) = front.splitOn ':' ++ [[]] := by
      have whole := (splitOn_of_last some_).1 ends
      rw [split] at whole
      exact (List.append_cancel_right whole).symm
    rw [tokens] at groups shape
    rw [split] at plain ⊢
    refine ⟨?_, fun part same => ?_, singleGap_trailing shape⟩
    · rw [List.dropLast_concat] at groups ⊢
      intro part listed
      rcases List.mem_append.mp listed with before | empty
      · exact groupPart_of_plain (groups part before) (plain part (by simp [before]))
      · exact Or.inl (List.mem_singleton.mp empty)
    · rw [List.getLast?_concat] at same
      cases Option.some.inj same
      exact Or.inl (Or.inl rfl)
  · have tokens := (splitOn_of_last some_).2 ends
    rw [← tokens] at groups final shape
    refine ⟨fun part listed => ?_, fun part same => ?_, singleGap_inner some_ ends first shape⟩
    · exact groupPart_of_plain (groups part listed) (plain part (List.mem_of_mem_dropLast listed))
    · have listed := List.mem_of_getLast? same
      rcases final part same with group | nested
      · exact Or.inl (groupPart_of_plain group (plain part listed))
      · exact Or.inr (wellFormedQuad_of_plain nested (plain part listed))

theorem ends_of_singleGap (single : SingleGap text) :
    (text.head? = some ':' → [':', ':'] <+: text) ∧
      (text.getLast? = some ':' → [':', ':'] <:+ text) := by
  rcases single with grouped | ⟨front, back, rfl, before, behind⟩
  · exact ⟨fun first => absurd (splitOn_head first) grouped,
      fun last => absurd (splitOn_last last) grouped⟩
  · constructor
    · intro first
      by_cases empty : front = []
      · exact ⟨back, by simp [empty]⟩
      · rw [List.head?_append_of_ne_nil _ empty] at first
        exact absurd (splitOn_head first) (before.resolve_left empty)
    · intro last
      by_cases empty : back = []
      · exact ⟨front, by simp [empty]⟩
      · have same : (front ++ ':' :: ':' :: back).getLast? = back.getLast? := by
          rw [List.getLast?_append_of_ne_nil _ (by simp), List.getLast?_cons_cons,
            List.getLast?_cons_of_ne_nil empty]
        rw [same] at last
        exact absurd (splitOn_last last) (behind.resolve_left empty)

theorem plainPart_of_parts (groups : ∀ part ∈ parts.dropLast, GroupPart part)
    (final : ∀ part, parts.getLast? = some part → GroupPart part ∨ WellFormedQuad part) :
    ∀ part ∈ parts, PlainPart part := by
  intro part listed
  rcases List.eq_nil_or_concat parts with rfl | ⟨others, last, rfl⟩
  · cases listed
  · rw [List.concat_eq_append] at listed groups final
    rw [List.dropLast_concat] at groups
    rcases List.mem_append.mp listed with before | same
    · exact plainPart_of_group (groups part before)
    · cases List.mem_singleton.mp same
      rcases final part (List.getLast?_concat ..) with group | quad
      · exact plainPart_of_group group
      · exact plainPart_of_quad quad

/-- An accepted text is well formed exactly when it is plain. -/
theorem accepted_text_well_formed_iff (s : Str) (value : IpRepresentation)
    (accepted : IpRepresentation.parse s = .ok value) : WellFormedIp s ↔ PlainIp s := by
  obtain ⟨cells, read, -⟩ := (parse_eq_ok_iff s value).mp accepted
  rw [readIp] at read
  rw [WellFormedIp, PlainIp]
  by_cases colon : ':' ∈ s
  · rw [if_pos colon] at read
    rw [if_pos colon, if_pos colon]
    constructor
    · rintro ⟨groups, final, single⟩
      obtain ⟨first, last⟩ := ends_of_singleGap single
      exact ⟨first, last, plainPart_of_parts groups final⟩
    · rintro ⟨first, last, plain⟩
      exact parts_of_plain colon read first last plain
  · rw [if_neg colon] at read
    rw [if_neg colon, if_neg colon]
    obtain ⟨quad, some_, -⟩ := Option.map_eq_some_iff.mp read
    exact wellFormedQuad_iff some_

theorem mapped_text_well_formed :
    IpRepresentation.parse "::ffff:10.0.*.7".toList = .ok (represent (List.replicate 10 (some 0) ++
      [some 0xFF, some 0xFF, some 10, some 0, none, some 7])) ∧
    WellFormedIp "::ffff:10.0.*.7".toList := by
  have read : readIp "::ffff:10.0.*.7".toList = some (List.replicate 10 (some 0) ++
      [some 0xFF, some 0xFF, some 10, some 0, none, some 7]) := by decide
  have accepted := (parse_eq_ok_iff _ _).mpr ⟨_, read, rfl⟩
  have quad : PlainQuad "10.0.*.7".toList := by
    have parts : (("10.0.*.7".toList.splitOn '.').all fun part =>
        part == ['*'] || part.all Char.isDigit) = true := by decide
    refine ⟨by decide, fun part listed => ?_⟩
    have plain := List.all_eq_true.mp parts part listed
    rw [Bool.or_eq_true, beq_iff_eq, List.all_eq_true] at plain
    exact plain
  have groups : ([[], [], "ffff".toList].all fun part => part.all isHexDigit) = true := rfl
  have split : "::ffff:10.0.*.7".toList.splitOn ':' =
      [[], [], "ffff".toList] ++ ["10.0.*.7".toList] := by decide
  refine ⟨accepted, (accepted_text_well_formed_iff _ _ accepted).mpr ?_⟩
  rw [PlainIp, if_pos (by decide), split]
  refine ⟨fun _ => ⟨_, rfl⟩, fun last => absurd last (by decide), fun part listed => ?_⟩
  rcases List.mem_append.mp listed with group | last
  · exact Or.inr (Or.inl (List.all_eq_true.mp (List.all_eq_true.mp groups part group)))
  · rw [List.mem_singleton.mp last]
    exact Or.inr (Or.inr ⟨by decide, quad⟩)

/-- Empty tokens of a quad are dropped, digits end at the first other character,
    and one colon at an end does for a `::`. -/
theorem malformed_texts_accepted :
    ((∃ value, IpRepresentation.parse "1..2.3.4".toList = .ok value) ∧
      ¬WellFormedIp "1..2.3.4".toList) ∧
    ((∃ value, IpRepresentation.parse "1x.2.3.4".toList = .ok value) ∧
      ¬WellFormedIp "1x.2.3.4".toList) ∧
    (∃ value, IpRepresentation.parse ":1".toList = .ok value) ∧ ¬WellFormedIp ":1".toList := by
  have dropped : readIp "1..2.3.4".toList =
      some (List.replicate 12 (some 0) ++ [some 1, some 2, some 3, some 4]) := by decide
  have stopped : readIp "1x.2.3.4".toList =
      some (List.replicate 12 (some 0) ++ [some 1, some 2, some 3, some 4]) := by decide
  have padded : readIp ":1".toList = some (List.replicate 15 (some 0) ++ [some 1]) := by decide
  refine ⟨⟨⟨_, (parse_eq_ok_iff _ _).mpr ⟨_, dropped, rfl⟩⟩, ?_⟩,
    ⟨⟨_, (parse_eq_ok_iff _ _).mpr ⟨_, stopped, rfl⟩⟩, ?_⟩,
    ⟨_, (parse_eq_ok_iff _ _).mpr ⟨_, padded, rfl⟩⟩, ?_⟩
  · rw [WellFormedIp, if_neg (by decide)]
    rintro ⟨four, -⟩
    rw [length_splitOn] at four
    exact absurd four (by decide)
  · rw [WellFormedIp, if_neg (by decide)]
    rintro ⟨-, parts⟩
    rcases parts "1x".toList (by decide) with star | decimal
    · exact absurd star (by decide)
    · exact absurd (decimal.2.1 'x' (by decide)) (by decide)
  · rw [WellFormedIp, if_pos (by decide)]
    rintro ⟨-, -, grouped | ⟨front, back, whole, -, -⟩⟩
    · exact grouped (by decide)
    · -- two colons, where the text has one
      have colons := congrArg (List.count ':') whole
      rw [List.count_append, List.count_cons_self, List.count_cons_self,
        show ":1".toList.count ':' = 1 by decide] at colons
      omega

end HttpServer
