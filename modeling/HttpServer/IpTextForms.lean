import HttpServer.IpNumerals

/-!
The standard texts of an address: a dotted quad, eight groups, or groups around
one `::`, the last two of which may be written as a dotted quad. The constructor
understands all of them except two families around the `::`.
-/
namespace HttpServer
open Fields

inductive IpText where
  | ipv4 (quad : List Str)
  | full (groups : List Str) (quad : Option (List Str))
  | gap (front back : List Str) (quad : Option (List Str))

def quadText (quad : List Str) : Str := ['.'].intercalate quad

def tailTokens (groups : List Str) (quad : Option (List Str)) : List Str :=
  groups ++ (quad.map quadText).toList

def groupsOctets (groups : List Str) : List UInt8 := groups.flatMap groupOctets

def quadOctets (quad : Option (List Str)) : List UInt8 := (quad.getD []).map decimalOctet

def MappedLead (lead : List UInt8) : Prop :=
  lead.length = 12 ∧ lead.take 10 = List.replicate 10 0 ∧
    (lead.drop 10 = [0x00, 0x00] ∨ lead.drop 10 = [0xFF, 0xFF])

def DecimalQuad (quad : List Str) : Prop := quad.length = 4 ∧ ∀ part ∈ quad, DecimalOctet part

namespace IpText

def text : IpText → Str
  | ipv4 quad => quadText quad
  | full groups quad => [':'].intercalate (tailTokens groups quad)
  | gap front back quad =>
    [':'].intercalate front ++ ':' :: ':' :: [':'].intercalate (tailTokens back quad)

def lead : IpText → List UInt8
  | ipv4 _ => List.replicate 12 0
  | full groups _ => groupsOctets groups
  | gap front back quad =>
    let written := (groupsOctets front).length + (groupsOctets back).length + (quadOctets quad).length
    groupsOctets front ++ List.replicate (16 - written) 0 ++ groupsOctets back

def quad : IpText → Option (List Str)
  | ipv4 quad => some quad
  | full _ quad => quad
  | gap _ _ quad => quad

def octets (t : IpText) : List UInt8 := t.lead ++ quadOctets t.quad

def Valid (t : IpText) : Prop :=
  t.octets.length = 16 ∧ (∀ quad, t.quad = some quad → DecimalQuad quad ∧ MappedLead t.lead) ∧
    match t with
    | ipv4 _ => True
    | full groups _ => ∀ group ∈ groups, HexGroup group
    | gap front back quad => (∀ group ∈ front ++ back, HexGroup group) ∧
      (groupsOctets front).length + (groupsOctets back).length + (quadOctets quad).length ≤ 14

/-- A leading `::` in front of seven groups, or a dotted quad with a `::` that
    does not come first. -/
def Refused : IpText → Prop
  | ipv4 _ => False
  | full _ _ => False
  | gap front back quad =>
    (front = [] ∧ back.length = 7 ∧ quad = none) ∨ (front ≠ [] ∧ quad.isSome = true)

end IpText

def addressOf (octets : List UInt8) : IpRepresentation where
  octets i := octets[i.val]?.getD 0
  mask := IpRepresentation.defaultMask

def Understood (t : IpText) : Prop := IpRepresentation.parse t.text = .ok (addressOf t.octets)

theorem represent_octets (octets : List UInt8) : represent (octets.map some) = addressOf octets := by
  have masks : ∀ (cells : List (Cell × Nat)) (mask : BitVec 16), (∀ cell ∈ cells, cell.1 ≠ none) →
      cells.foldl clearCell mask = mask := by
    intro cells mask filled
    induction cells generalizing mask with
    | nil => rfl
    | cons cell cells ih =>
      rw [List.foldl_cons, clearCell, if_neg (filled cell List.mem_cons_self)]
      exact ih mask fun other listed => filled other (List.mem_cons_of_mem cell listed)
  have bytes : (represent (octets.map some)).octets = (addressOf octets).octets := by
    funext i
    simp only [represent, addressOf, List.getElem?_map]
    cases octets[i.val]? with
    | none => rfl
    | some byte => rfl
  have mask : (represent (octets.map some)).mask = (addressOf octets).mask := by
    apply masks
    intro cell listed
    obtain ⟨byte, -, same⟩ := List.mem_map.mp (List.fst_mem_of_mem_zipIdx listed)
    rw [← same]
    exact Option.some_ne_none byte
  exact congrArg₂ IpRepresentation.mk bytes mask

theorem not_mem_of_hexGroup {group : Str} (hex : HexGroup group) {c : Char}
    (other : isHexDigit c = false) : c ∉ group := by
  intro listed
  rw [hex.2.2 c listed] at other
  cases other

theorem length_groupsOctets (groups : List Str) :
    (groupsOctets groups).length = 2 * groups.length := by
  induction groups with
  | nil => rfl
  | cons group groups ih =>
    rw [groupsOctets, List.flatMap_cons, List.length_append, List.length_cons]
    rw [groupsOctets] at ih
    rw [ih]
    simp only [groupOctets, List.length_cons, List.length_nil]
    omega

theorem length_intercalate_ge (sep : Char) (fs : List Str) (full : ∀ f ∈ fs, f ≠ []) :
    2 * fs.length ≤ ([sep].intercalate fs).length + 1 := by
  induction fs with
  | nil => simp
  | cons f rest ih =>
    have first := List.length_pos_iff.mpr (full f List.mem_cons_self)
    have tail := ih fun g listed => full g (List.mem_cons_of_mem f listed)
    cases rest with
    | nil =>
      rw [List.intercalate_singleton, List.length_singleton]
      omega
    | cons g rest =>
      rw [List.intercalate_cons_cons, List.length_append, List.length_append, List.length_singleton]
      simp only [List.length_cons] at tail ⊢
      omega

theorem length_quadText {quad : List Str} (decimal : DecimalQuad quad) : 4 < (quadText quad).length := by
  have long := length_intercalate_ge '.' quad fun part listed => (decimal.2 part listed).1
  rw [decimal.1] at long
  rw [quadText]
  omega

theorem not_mem_quadText {quad : List Str} (decimal : DecimalQuad quad) {c : Char}
    (other : c.isDigit = false) (apart : c ≠ '.') : c ∉ quadText quad := by
  intro listed
  rcases mem_intercalate listed with dot | ⟨part, member, inside⟩
  · exact apart (by simpa using dot)
  · exact not_mem_of_decimal (decimal.2 part member) other inside

theorem dot_mem_quadText {quad : List Str} (decimal : DecimalQuad quad) : '.' ∈ quadText quad := by
  obtain ⟨four, -⟩ := decimal
  match quad, four with
  | [a, b, c, d], _ => simp [quadText, List.intercalate_cons_cons]

variable {quad : Option (List Str)} {groups back : List Str} {t : IpText}

theorem clean_tailTokens (hex : ∀ group ∈ groups, HexGroup group)
    (decimal : ∀ q, quad = some q → DecimalQuad q) :
    ∀ token ∈ tailTokens groups quad, token ≠ [] ∧ ':' ∉ token := by
  intro token listed
  rcases List.mem_append.mp listed with group | last
  · exact ⟨(hex token group).1, not_mem_of_hexGroup (hex token group) (by decide)⟩
  · obtain ⟨q, same, rfl⟩ : ∃ q, quad = some q ∧ quadText q = token := by
      cases quad with
      | none => simp at last
      | some q => exact ⟨q, rfl, by simpa [eq_comm] using last⟩
    have long := length_quadText (decimal q same)
    refine ⟨fun empty => ?_, not_mem_quadText (decimal q same) (by decide) (by decide)⟩
    rw [empty] at long
    simp at long

theorem readParts_groups (hex : ∀ group ∈ groups, HexGroup group) (omitted : Nat)
    (cells : List Cell) (parts : List Str) :
    readParts omitted cells (groups ++ parts) =
      readParts omitted (cells ++ (groupsOctets groups).map some) parts := by
  induction groups generalizing cells with
  | nil => simp [groupsOctets]
  | cons group groups ih =>
    have rest := ih fun other listed => hex other (List.mem_cons_of_mem group listed)
    rw [List.cons_append, readParts, readPart_group (hex group List.mem_cons_self),
      Option.bind_some, rest]
    simp [groupsOctets]

theorem readPart_quad {quad : List Str} (decimal : DecimalQuad quad) (omitted : Nat)
    (cells : List Cell) :
    readPart omitted true cells (quadText quad) =
      if cells.length = 12 ∧ mappedCells cells = true then
        some (cells ++ (quad.map decimalOctet).map some)
      else none := by
  have long := length_quadText decimal
  have dotted := dot_mem_quadText decimal
  have star : quadText quad ≠ ['*'] := by
    intro same
    rw [same] at long
    simp at long
  have some_ : quadText quad ≠ [] := by
    intro same
    rw [same] at long
    simp at long
  have wide : (padGroup (quadText quad)).length ≠ 4 := by
    rw [padGroup, List.length_append]
    omega
  rw [readPart, if_neg star, if_neg some_, if_neg wide]
  by_cases ready : cells.length = 12 ∧ mappedCells cells = true
  · rw [if_pos ⟨dotted, ready.1, rfl, ready.2⟩, if_pos ready, quadText,
      readQuad_decimal decimal.1 decimal.2, Option.map_some, List.map_map]
    rfl
  · rw [if_neg fun all => ready ⟨all.2.1, all.2.2.2⟩, if_neg ready]

theorem readParts_tail (hex : ∀ group ∈ groups, HexGroup group)
    (decimal : ∀ q, quad = some q → DecimalQuad q) (omitted : Nat) (cells : List Cell) :
    readParts omitted cells (tailTokens groups quad) =
      if quad.isSome = true → (cells ++ (groupsOctets groups).map some).length = 12 ∧
          mappedCells (cells ++ (groupsOctets groups).map some) = true then
        some (cells ++ (groupsOctets groups).map some ++ (quadOctets quad).map some)
      else none := by
  rw [tailTokens, readParts_groups hex]
  cases quad with
  | none => simp [readParts, quadOctets]
  | some q =>
    rw [Option.map_some, Option.toList_some, readParts, decide_eq_true rfl,
      readPart_quad (decimal q rfl)]
    simp only [Option.isSome_some, forall_const, quadOctets, Option.getD_some]
    split
    · rfl
    · rfl

theorem mappedCells_of_lead {lead : List UInt8} (mapped : MappedLead lead) :
    mappedCells (lead.map some) = true := by
  obtain ⟨-, zeros, pair⟩ := mapped
  rw [mappedCells, ← List.map_take, ← List.map_drop, zeros]
  rcases pair with low | high
  · rw [low]
    decide
  · rw [high]
    decide

theorem understood_of_read (read : readIp t.text = some (t.octets.map some)) : Understood t :=
  (parse_eq_ok_iff _ _).mpr ⟨_, read, (represent_octets _).symm⟩

theorem not_understood (unread : readIp t.text = none) : ¬Understood t := by
  intro understood
  obtain ⟨cells, read, -⟩ := (parse_eq_ok_iff _ _).mp understood
  rw [unread] at read
  cases read

theorem IpText.Valid.ready (valid : t.Valid) :
    t.quad.isSome = true → (t.lead.map some).length = 12 ∧ mappedCells (t.lead.map some) = true := by
  intro present
  obtain ⟨quad, same⟩ := Option.isSome_iff_exists.mp present
  have mapped := (valid.2.1 quad same).2
  exact ⟨by rw [List.length_map]; exact mapped.1, mappedCells_of_lead mapped⟩

theorem IpText.no_quad (bare : t.quad = none) :
    ∀ quad, t.quad = some quad → DecimalQuad quad ∧ MappedLead t.lead := by
  intro quad same
  rw [bare] at same
  cases same

theorem length_quadOctets (decimal : ∀ q, quad = some q → DecimalQuad q) :
    (quadOctets quad).length = 4 * (quad.map quadText).toList.length := by
  cases quad with
  | none => rfl
  | some q => simpa [quadOctets] using (decimal q rfl).1

theorem length_tailTokens (groups : List Str) (quad : Option (List Str)) :
    (tailTokens groups quad).length = groups.length + (quad.map quadText).toList.length := by
  rw [tailTokens, List.length_append]

theorem length_quadTokens (quad : Option (List Str)) : (quad.map quadText).toList.length ≤ 1 := by
  cases quad with
  | none => simp
  | some q => simp

theorem readIp_ipv4 {quad : List Str} (decimal : DecimalQuad quad) :
    readIp (quadText quad) = some ((IpText.ipv4 quad).octets.map some) := by
  have colon : ':' ∉ quadText quad := not_mem_quadText decimal (by decide) (by decide)
  rw [readIp, if_neg colon, quadText, readQuad_decimal decimal.1 decimal.2, Option.map_some,
    IpText.octets, List.map_append, IpText.lead, IpText.quad, quadOctets, List.map_replicate,
    Option.getD_some, List.map_map]
  rfl

theorem sep_mem_intercalate {sep : Char} {fs : List Str} (two : 2 ≤ fs.length) :
    sep ∈ [sep].intercalate fs := by
  match fs, two with
  | f :: g :: rest, _ => simp [List.intercalate_cons_cons]

theorem readIp_full (valid : (IpText.full groups quad).Valid) :
    readIp (IpText.full groups quad).text = some ((IpText.full groups quad).octets.map some) := by
  have hex : ∀ group ∈ groups, HexGroup group := valid.2.2
  have decimal : ∀ q, quad = some q → DecimalQuad q := fun q same => (valid.2.1 q same).1
  have clean := clean_tailTokens hex decimal
  have ready := valid.ready
  have sixteen := valid.1
  have quads := length_quadOctets decimal
  have tokens := length_tailTokens groups quad
  have most := length_quadTokens quad
  rw [IpText.octets, IpText.lead, IpText.quad, List.length_append, length_groupsOctets] at sixteen
  have split : stringSplit ([':'].intercalate (tailTokens groups quad)) ':' false =
      tailTokens groups quad :=
    fields_intercalate ':' _ (fun token listed => (clean token listed).2)
      fun token listed => (clean token listed).1
  have empties : (tailTokens groups quad).countP (· = []) = 0 :=
    countP_empty_eq_zero.mpr fun listed => (clean [] listed).1 rfl
  have some_ : tailTokens groups quad ≠ [] := by
    intro none_
    rw [none_] at tokens
    simp only [List.length_nil] at tokens
    omega
  rw [IpText.text, readIp, if_pos (sep_mem_intercalate (by omega)), readIpv6, split,
    if_neg (by omega), computeIpv6OmittedSegments_single some_ (by omega) (by omega)]
  dsimp only
  rw [readParts_tail hex decimal, if_pos]
  · simp [IpText.octets, IpText.lead, IpText.quad]
  · exact ready

theorem stringSplit_front {front : List Str} (hexFront : ∀ group ∈ front, HexGroup group)
    (hexBack : ∀ group ∈ back, HexGroup group) (decimal : ∀ q, quad = some q → DecimalQuad q)
    (some_ : front ≠ []) :
    stringSplit (IpText.gap front back quad).text ':' false = front ++ [] :: tailTokens back quad := by
  have clean := clean_tailTokens hexBack decimal
  refine (fields_intercalate_append ':' some_ (fun group listed =>
    not_mem_of_hexGroup (hexFront group listed) (by decide)) _).trans ?_
  rw [fields_sep_cons, fields_intercalate ':' _ (fun token listed => (clean token listed).2)
    fun token listed => (clean token listed).1]

theorem stringSplit_leading (hexBack : ∀ group ∈ back, HexGroup group)
    (decimal : ∀ q, quad = some q → DecimalQuad q) :
    stringSplit (IpText.gap [] back quad).text ':' false = [] :: [] :: tailTokens back quad := by
  have clean := clean_tailTokens hexBack decimal
  have joined := fields_intercalate ':' (tailTokens back quad)
    (fun token listed => (clean token listed).2) fun token listed => (clean token listed).1
  refine (fields_sep_cons ':' _).trans (congrArg _ ?_)
  rw [fields_sep_cons, joined]

theorem readIp_front {front : List Str} (valid : (IpText.gap front back quad).Valid)
    (some_ : front ≠ []) :
    readIp (IpText.gap front back quad).text =
      if quad = none then some ((IpText.gap front back quad).octets.map some) else none := by
  obtain ⟨-, quads, hex, room⟩ := valid
  have decimal : ∀ q, quad = some q → DecimalQuad q := fun q same => (quads q same).1
  have hexFront : ∀ group ∈ front, HexGroup group :=
    fun group listed => hex group (List.mem_append_left back listed)
  have hexBack : ∀ group ∈ back, HexGroup group :=
    fun group listed => hex group (List.mem_append_right front listed)
  have clean := clean_tailTokens hexBack decimal
  have split := stringSplit_front hexFront hexBack decimal some_
  have empties : (front ++ [] :: tailTokens back quad).countP (· = []) = 1 := by
    have none_ : front.countP (· = []) = 0 :=
      countP_empty_eq_zero.mpr fun listed => (hexFront [] listed).1 rfl
    have none_' : (tailTokens back quad).countP (· = []) = 0 :=
      countP_empty_eq_zero.mpr fun listed => (clean [] listed).1 rfl
    rw [List.countP_append, List.countP_cons, none_, none_']
    rfl
  have quadLength := length_quadOctets decimal
  have tokens := length_tailTokens back quad
  rw [length_groupsOctets, length_groupsOctets] at room
  have colon : ':' ∈ (IpText.gap front back quad).text := by simp [IpText.text]
  have length : (front ++ [] :: tailTokens back quad).length =
      front.length + back.length + (quad.map quadText).toList.length + 1 := by
    rw [List.length_append, List.length_cons, tokens]
    omega
  rw [readIp, if_pos colon, readIpv6, split, if_neg (by omega),
    computeIpv6OmittedSegments_single (by simp) (by omega) (by omega)]
  dsimp only
  have star : ([] : Str) ≠ ['*'] := by simp
  rw [readParts_groups hexFront, readParts, readPart, if_neg star, if_pos rfl, Option.bind_some,
    readParts_tail hexBack decimal]
  cases quad with
  | none =>
    have same : 9 - (front ++ [] :: tailTokens back none).length = 8 - front.length - back.length := by
      rw [length]
      simp only [Option.map_none, Option.toList_none, List.length_nil]
      omega
    have zeros : 16 - (2 * front.length + 2 * back.length) =
        2 * (8 - front.length - back.length) := by omega
    rw [if_pos (by simp), if_pos rfl, same, IpText.octets, IpText.lead, length_groupsOctets,
      length_groupsOctets]
    simp [IpText.quad, quadOctets, zeros]
  | some q =>
    have none_ : ¬(some q = (none : Option (List Str))) := by simp
    rw [if_neg none_, if_neg]
    intro ready
    have twelve := (ready rfl).1
    simp only [Option.map_some, Option.toList_some, List.length_singleton] at length room quadLength
    simp only [List.length_append, List.length_map, length_groupsOctets, List.length_replicate,
      List.nil_append] at twelve
    rw [List.length_append] at length
    omega

theorem dot_mem_tail (hex : ∀ group ∈ groups, HexGroup group)
    (decimal : ∀ q, quad = some q → DecimalQuad q) :
    '.' ∈ (tailTokens groups quad).getLast?.getD [] ↔ quad.isSome = true := by
  cases quad with
  | some q => simpa [tailTokens] using dot_mem_quadText (decimal q rfl)
  | none =>
    have same : tailTokens groups none = groups := List.append_nil groups
    rw [same]
    cases last : groups.getLast? with
    | none => simp
    | some group =>
      have listed := List.mem_of_getLast? last
      simpa using not_mem_of_hexGroup (hex group listed) (by decide)

theorem readIp_leading (valid : (IpText.gap [] back quad).Valid) :
    readIp (IpText.gap [] back quad).text =
      if back.length = 7 then none else some ((IpText.gap [] back quad).octets.map some) := by
  have ready := valid.ready
  obtain ⟨-, quads, hex, room⟩ := valid
  have decimal : ∀ q, quad = some q → DecimalQuad q := fun q same => (quads q same).1
  have hexBack : ∀ group ∈ back, HexGroup group := hex
  have clean := clean_tailTokens hexBack decimal
  have split := stringSplit_leading hexBack decimal
  have empties : [] ∉ tailTokens back quad := fun listed => (clean [] listed).1 rfl
  have quadLength := length_quadOctets decimal
  have most := length_quadTokens quad
  have tokens := length_tailTokens back quad
  have written : (groupsOctets []).length + (groupsOctets back).length + (quadOctets quad).length =
      2 * back.length + 4 * (quad.map quadText).toList.length := by
    rw [length_groupsOctets, length_groupsOctets, quadLength, List.length_nil]
    omega
  rw [written] at room
  have colon : ':' ∈ (IpText.gap [] back quad).text := by simp [IpText.text]
  rw [readIp, if_pos colon, readIpv6, split]
  simp only [List.length_cons]
  by_cases seven : back.length = 7
  · rw [if_pos (by omega), if_pos seven]
  · have omitted : (if '.' ∈ (tailTokens back quad).getLast?.getD [] then 7 else 8) -
        (tailTokens back quad).length = 8 - back.length - 2 * (quad.map quadText).toList.length := by
      rw [tokens]
      cases quad with
      | none =>
        rw [if_neg (by simpa using (dot_mem_tail hexBack decimal).not)]
        simp
      | some q =>
        rw [if_pos ((dot_mem_tail hexBack decimal).mpr rfl)]
        simp only [Option.map_some, Option.toList_some, List.length_singleton]
        omega
    have zeros : 2 * (8 - back.length - 2 * (quad.map quadText).toList.length) =
        16 - (2 * back.length + 4 * (quad.map quadText).toList.length) := by omega
    have star : ([] : Str) ≠ ['*'] := by simp
    rw [if_neg (by omega), if_neg seven, computeIpv6OmittedSegments_leading (by omega) empties,
      omitted]
    dsimp only
    rw [readParts, readPart, if_neg star, if_pos rfl, Option.bind_some,
      readParts_tail hexBack decimal, zeros]
    have before : [] ++ List.replicate (16 - (2 * back.length +
          4 * (quad.map quadText).toList.length)) (some 0) ++ (groupsOctets back).map some =
        (IpText.gap [] back quad).lead.map some := by
      rw [IpText.lead, written]
      simp [groupsOctets]
    rw [before, if_pos, IpText.octets, List.map_append]
    · rfl
    · exact ready

/-- A standard text is understood unless it is one of the two families. -/
theorem standard_text_understood_iff (t : IpText) (valid : t.Valid) :
    Understood t ↔ ¬t.Refused := by
  cases t with
  | ipv4 quad =>
    have read := readIp_ipv4 (valid.2.1 quad rfl).1
    exact ⟨fun _ refused => refused, fun _ => understood_of_read read⟩
  | full groups quad =>
    exact ⟨fun _ refused => refused, fun _ => understood_of_read (readIp_full valid)⟩
  | gap front back quad =>
    by_cases first : front = []
    · subst first
      have read := readIp_leading valid
      by_cases seven : back.length = 7
      · rw [if_pos seven] at read
        have bare : quad = none := by
          have room := valid.2.2.2
          cases quad with
          | none => rfl
          | some q =>
            have four := (valid.2.1 q rfl).1.1
            simp only [length_groupsOctets, quadOctets, Option.getD_some, List.length_map] at room
            omega
        refine ⟨fun understood => absurd understood (not_understood read), ?_⟩
        intro accepted
        exact absurd (Or.inl ⟨rfl, seven, bare⟩) accepted
      · rw [if_neg seven] at read
        refine ⟨fun _ => ?_, fun _ => understood_of_read read⟩
        rintro (⟨-, seven', -⟩ | ⟨other, -⟩)
        · exact seven seven'
        · exact other rfl
    · have read := readIp_front valid first
      cases quad with
      | none =>
        rw [if_pos rfl] at read
        refine ⟨fun _ => ?_, fun _ => understood_of_read read⟩
        rintro (⟨empty, -⟩ | ⟨-, some_⟩)
        · exact first empty
        · cases some_
      | some q =>
        rw [if_neg (by simp)] at read
        refine ⟨fun understood => absurd understood (not_understood read), ?_⟩
        intro accepted
        exact absurd (Or.inr ⟨first, rfl⟩) accepted

def documentText : IpText := .gap ["2001".toList, "DB8".toList] ["1".toList] none

theorem documentText_valid : documentText.Valid := by
  have groups : ∀ group ∈ ["2001".toList, "DB8".toList, "1".toList], HexGroup group := by decide
  exact And.intro (by decide) (And.intro (IpText.no_quad rfl) (And.intro groups (by decide)))

theorem document_text_understood :
    documentText.Valid ∧ documentText.text = "2001:DB8::1".toList ∧
      (Understood documentText ↔ ¬documentText.Refused) :=
  ⟨documentText_valid, by decide, standard_text_understood_iff documentText documentText_valid⟩

def leadingText : IpText :=
  .gap [] ["2".toList, "3".toList, "4".toList, "5".toList, "6".toList, "7".toList, "8".toList] none

def nestedText : IpText :=
  .gap ["0".toList] [] (some ["1".toList, "2".toList, "3".toList, "4".toList])

theorem leadingText_valid : leadingText.Valid := by
  have groups : ∀ group ∈ ["2".toList, "3".toList, "4".toList, "5".toList, "6".toList, "7".toList,
      "8".toList], HexGroup group := by decide
  exact And.intro (by decide) (And.intro (IpText.no_quad rfl) (And.intro groups (by decide)))

theorem nestedText_valid : nestedText.Valid := by
  have groups : ∀ group ∈ ["0".toList], HexGroup group := by decide
  refine And.intro (by decide) (And.intro ?_ (And.intro groups (by decide)))
  intro quad same
  have each : ∀ part ∈ ["1".toList, "2".toList, "3".toList, "4".toList], DecimalOctet part := by decide
  obtain rfl : ["1".toList, "2".toList, "3".toList, "4".toList] = quad := Option.some.inj same
  exact ⟨⟨rfl, each⟩, by decide, by decide, by decide⟩

/-- One text of each family, and the errors they meet. -/
theorem standard_texts_refused :
    (leadingText.Valid ∧ leadingText.text = "::2:3:4:5:6:7:8".toList ∧
      IpRepresentation.parse leadingText.text = .error .maxEightParts) ∧
    nestedText.Valid ∧ nestedText.text = "0::1.2.3.4".toList ∧
      IpRepresentation.parse nestedText.text = .error .missingBeforeNested :=
  ⟨⟨leadingText_valid, by decide, rfl⟩, nestedText_valid, by decide, rfl⟩

end HttpServer
