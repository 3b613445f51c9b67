import HttpServer.PercentDecoding

/-!
The query string as a client writes it. libmicrohttpd splits it at the
separators and hands over both halves of a pair still encoded, because the
server installs an unescape callback that does nothing. The value is decoded
when it is stored, the name is not.
-/
namespace HttpServer
open Fields ComparatorSet OrderedMap

/-- A percent-encoding for a query string, where no decoder or splitter looks at a
    byte that stands for itself. -/
abbrev Encodes : Str → Str → Prop := WrittenAs (decoderBytes ++ ['&', '='])

def ByteText (s : Str) : Prop := ∀ c ∈ s, c.toNat < 256 ∧ c ≠ '\x00'

instance decidableByteText (s : Str) : Decidable (ByteText s) :=
  List.decidableBAll (fun c : Char => c.toNat < 256 ∧ c ≠ '\x00') s

structure SentPair where
  key : Str
  value : Str
  rawKey : Str
  rawValue : Str
  named : key ≠ []
  keyText : ByteText key
  valueText : ByteText value
  keyEncoded : Encodes rawKey key
  valueEncoded : Encodes rawValue value

def queryString (pairs : List SentPair) : Str :=
  ['&'].intercalate (pairs.map fun pair => pair.rawKey ++ '=' :: pair.rawValue)

/-- libmicrohttpd's split of one argument at the first `=`. -/
def splitArgument (text : Str) : RawPair :=
  if '=' ∈ text then ((popField '=' text).1, some (popField '=' text).2) else (text, none)

def splitArguments (query : Str) : List RawPair := (fields '&' query).map splitArgument

def sentSource (pairs : List SentPair) (maxArgsCount maxArgsBytes : Nat) : ArgSource where
  queryArgs := splitArguments (queryString pairs)
  maxArgsCount := maxArgsCount
  maxArgsBytes := maxArgsBytes

def NamesRetrievable (src : ArgSource) (pairs : List SentPair) : Prop :=
  ∀ key, ByteText key →
    (({} : RequestArgs).getArg src key).2 = (pairs.filter (·.key = key)).map (·.value)

namespace WrittenAs
variable {reserved : List Char} {raw text : Str}

theorem clean (encodes : Encodes raw text) : '&' ∉ raw ∧ '=' ∉ raw :=
  ⟨encodes.absent (by decide) (by decide), encodes.absent (by decide) (by decide)⟩

theorem bytes (written : WrittenAs reserved raw text) (small : ∀ c ∈ text, c.toNat < 256) :
    ∀ c ∈ raw, c.toNat < 256 := by
  have digit {d : Char} {n : Nat} (value : hexValue d = some n) : d.toNat < 256 := by
    by_contra large
    rw [(not_hexDigit (by omega)).2] at value
    cases value
  induction written with
  | nil => exact small
  | @literal c raw text free rest ih =>
    obtain ⟨first, later⟩ := List.forall_mem_cons.mp small
    exact List.forall_mem_cons.mpr ⟨first, ih later⟩
  | @space raw text rest ih =>
    exact List.forall_mem_cons.mpr ⟨by decide, ih (List.forall_mem_cons.mp small).2⟩
  | @escape hi lo h l raw text high low rest ih =>
    simp only [List.forall_mem_cons] at small ⊢
    exact ⟨by decide, digit high, digit low, ih small.2⟩

/-- An escape is longer than its byte, also when that is a plus sign. -/
def weight (s : Str) : Nat := s.length + s.count '+'

theorem same_or_heavier (written : WrittenAs reserved raw text) :
    raw = text ∨ weight text < weight raw := by
  induction written with
  | nil => exact Or.inl rfl
  | @literal c raw text free rest ih =>
    rcases ih with rfl | heavier
    · exact Or.inl rfl
    · refine Or.inr ?_
      simp only [weight, List.length_cons, List.count_cons] at heavier ⊢
      omega
  | @space raw text rest ih =>
    refine Or.inr ?_
    have most : weight text ≤ weight raw := ih.elim (fun same => same ▸ Nat.le_refl _) Nat.le_of_lt
    simp only [weight, List.length_cons, List.count_cons] at most ⊢
    simp
    omega
  | @escape hi lo h l raw text high low rest ih =>
    refine Or.inr ?_
    have most : weight text ≤ weight raw := ih.elim (fun same => same ▸ Nat.le_refl _) Nat.le_of_lt
    simp only [weight, List.length_cons, List.count_cons] at most ⊢
    split <;> omega

end WrittenAs

def SentPair.raw (pair : SentPair) : RawPair := (pair.rawKey, some pair.rawValue)

theorem splitArgument_sent (pair : SentPair) :
    splitArgument (pair.rawKey ++ '=' :: pair.rawValue) = pair.raw := by
  rw [splitArgument, if_pos (by simp), popField_append '=' _ _ pair.keyEncoded.clean.2]
  rfl

theorem splitArguments_sent (pairs : List SentPair) :
    splitArguments (queryString pairs) = pairs.map SentPair.raw := by
  rw [splitArguments, queryString, fields_intercalate, List.map_map]
  · exact List.map_congr_left fun pair _ => splitArgument_sent pair
  · rintro text listed
    obtain ⟨pair, -, rfl⟩ := List.mem_map.mp listed
    simp only [List.mem_append, List.mem_cons, not_or]
    exact ⟨pair.keyEncoded.clean.1, by decide, pair.valueEncoded.clean.1⟩
  · rintro text listed
    obtain ⟨pair, -, rfl⟩ := List.mem_map.mp listed
    simp

theorem decodedValue_sent (pair : SentPair) : decodedValue pair.raw = pair.value := by
  rw [decodedValue, unescapeInArena_none]
  exact (pair.valueEncoded.decoded_buf (by decide)).2

theorem signedByte_inj {c d : Char} (left : c.toNat < 256) (right : d.toNat < 256)
    (same : signedByte c = signedByte d) : c = d := by
  unfold signedByte at same
  have code : c.toNat = d.toNat := by omega
  exact Char.toNat_inj.mp code

theorem keyBytes_inj {a b : Str} (left : ∀ c ∈ a, c.toNat < 256) (right : ∀ c ∈ b, c.toNat < 256) :
    keyBytes a = keyBytes b ↔ a = b := by
  refine ⟨fun same => ?_, fun same => congrArg keyBytes same⟩
  induction a generalizing b with
  | nil => exact (List.map_eq_nil_iff.mp same.symm).symm
  | cons c a ih =>
    cases b with
    | nil => cases same
    | cons d b =>
      obtain ⟨leftHead, leftRest⟩ := List.forall_mem_cons.mp left
      obtain ⟨rightHead, rightRest⟩ := List.forall_mem_cons.mp right
      obtain ⟨head, rest⟩ := List.cons.inj same
      rw [signedByte_inj leftHead rightHead head, ih leftRest rightRest rest]

section
variable {pairs : List SentPair} {maxArgsCount maxArgsBytes : Nat}

theorem getArg_sent
    (fits : KeepsLimits (sentSource pairs maxArgsCount maxArgsBytes).countLimit
      (sentSource pairs maxArgsCount maxArgsBytes).bytesLimit [] (pairs.map SentPair.raw))
    (size : maxArgsBytes < UInt64.size) {key : Str} (text : ByteText key) :
    (({} : RequestArgs).getArg (sentSource pairs maxArgsCount maxArgsBytes) key).2 =
      (pairs.filter (·.rawKey = key)).map (·.value) := by
  have limit : (sentSource pairs maxArgsCount maxArgsBytes).bytesLimit < UInt64.size := by
    unfold ArgSource.bytesLimit
    split
    · exact size
    · decide
  have whole : rawBytes (pairs.map SentPair.raw) < UInt64.size := by
    rcases eq_or_ne (pairs.map SentPair.raw) [] with empty | some_
    · rw [empty]
      decide
    · exact Nat.lt_of_le_of_lt (fits _ (List.prefix_refl _) some_).2 limit
  have loaded := buildRequestArgs_all ArgMap.valid_nil whole
    fun part front some_ => ⟨(fits part front some_).1, by simpa using (fits part front some_).2⟩
  have query : (sentSource pairs maxArgsCount maxArgsBytes).queryArgs = pairs.map SentPair.raw :=
    splitArguments_sent pairs
  have same (pair : SentPair) :
      keyBytes pair.raw.1 = keyBytes key ↔ pair.rawKey = key :=
    keyBytes_inj (pair.keyEncoded.bytes fun c listed => (pair.keyText c listed).1)
      fun c listed => (text c listed).1
  change ArgMap.values _ key = _
  rw [populateArgs_unread rfl rfl, query, loaded, ArgMap.valid_nil.values_appendPairs, List.filter_map, List.map_map]
  change [] ++ _ = _
  rw [List.nil_append]
  have kept : pairs.filter ((fun pair : RawPair => decide (keyBytes pair.1 = keyBytes key)) ∘ SentPair.raw) =
      pairs.filter (·.rawKey = key) :=
    List.filter_congr fun pair _ => decide_eq_decide.mpr (same pair)
  rw [kept]
  exact List.map_congr_left fun pair _ => decodedValue_sent pair

theorem sent_as_is {pairs : List SentPair}
    (found : ∀ pair ∈ pairs, ((pairs.filter (·.rawKey = pair.key)).map (·.value)).length =
      ((pairs.filter (·.key = pair.key)).map (·.value)).length) :
    ∀ pair ∈ pairs, pair.rawKey = pair.key := by
  intro pair
  induction long : WrittenAs.weight pair.key using Nat.strongRecOn generalizing pair with
  | ind n lighter =>
    intro listed
    by_contra other
    have within : ∀ sent ∈ pairs, sent.rawKey = pair.key → sent.key = pair.key := by
      intro sent inside raw
      by_contra apart
      have differs : sent.rawKey ≠ sent.key := fun same => apart (same.symm.trans raw)
      have less := sent.keyEncoded.same_or_heavier.resolve_left differs
      rw [raw, long] at less
      exact differs (lighter _ less sent rfl inside)
    have part : pairs.filter (·.rawKey = pair.key) =
        (pairs.filter (·.key = pair.key)).filter (·.rawKey = pair.key) := by
      rw [List.filter_filter]
      refine List.filter_congr fun sent inside => ?_
      by_cases raw : sent.rawKey = pair.key
      · simp [raw, within sent inside raw]
      · simp [raw]
    have fewer : ((pairs.filter (·.key = pair.key)).filter (·.rawKey = pair.key)).length <
        (pairs.filter (·.key = pair.key)).length :=
      List.length_filter_lt_length_iff_exists.mpr
        ⟨pair, List.mem_filter.mpr ⟨listed, by simp⟩, by simpa using other⟩
    have equal := found pair listed
    rw [List.length_map, List.length_map, part] at equal
    omega

end

/-- Names can be read back exactly when each was sent as it is. -/
theorem names_retrievable_iff (pairs : List SentPair) (maxArgsCount maxArgsBytes : Nat)
    (fits : KeepsLimits (sentSource pairs maxArgsCount maxArgsBytes).countLimit
      (sentSource pairs maxArgsCount maxArgsBytes).bytesLimit []
      (sentSource pairs maxArgsCount maxArgsBytes).queryArgs)
    (size : maxArgsBytes < UInt64.size) :
    NamesRetrievable (sentSource pairs maxArgsCount maxArgsBytes) pairs ↔
      ∀ pair ∈ pairs, pair.rawKey = pair.key := by
  rw [show (sentSource pairs maxArgsCount maxArgsBytes).queryArgs = pairs.map SentPair.raw from
    splitArguments_sent pairs] at fits
  constructor
  · intro retrievable
    refine sent_as_is fun pair listed => ?_
    rw [← getArg_sent fits size pair.keyText, retrievable pair.key pair.keyText]
  · intro literal key text
    rw [getArg_sent fits size text]
    congr 1
    exact List.filter_congr fun pair listed => by rw [literal pair listed]

theorem encodes_blank : Encodes ['a', '%', '2', '0', 'b'] ['a', ' ', 'b'] :=
  .literal (by decide) (@WrittenAs.escape _ '2' '0' 2 0 _ _ rfl rfl (.literal (by decide) .nil))

def blankValue : SentPair where
  key := ['q']
  value := ['a', ' ', 'b']
  rawKey := ['q']
  rawValue := ['a', '%', '2', '0', 'b']
  named := by decide
  keyText := by decide
  valueText := by decide
  keyEncoded := .literal (by decide) .nil
  valueEncoded := encodes_blank

def blankName : SentPair where
  key := ['a', ' ', 'b']
  value := ['1']
  rawKey := ['a', '%', '2', '0', 'b']
  rawValue := ['1']
  named := by decide
  keyText := by decide
  valueText := by decide
  keyEncoded := encodes_blank
  valueEncoded := .literal (by decide) .nil

theorem keepsLimits_singleton {count bytes : Nat} {args : ArgMap} {pair : RawPair}
    (few : args.distinctNames [pair] ≤ count) (short : rawBytes [pair] ≤ bytes) :
    KeepsLimits count bytes args [pair] := by
  intro part front some_
  rcases List.prefix_concat_iff.mp (show part <+: [] ++ [pair] from front) with same | empty
  · rw [same]
    exact ⟨few, short⟩
  · exact absurd (List.prefix_nil.mp empty) some_

theorem blank_value_retrieved :
    NamesRetrievable (sentSource [blankValue] 0 0) [blankValue] ∧
      (({} : RequestArgs).getArg (sentSource [blankValue] 0 0) ['q']).2 = [['a', ' ', 'b']] :=
  ⟨(names_retrievable_iff [blankValue] 0 0 (keepsLimits_singleton (by decide) (by decide))
    (by decide)).mpr (by decide), by decide⟩

/-- The pair sent as `a%20b=1` is not found under `a b` but under `a%20b`. -/
theorem blank_name_lost :
    ¬ NamesRetrievable (sentSource [blankName] 0 0) [blankName] ∧
      (({} : RequestArgs).getArg (sentSource [blankName] 0 0) ['a', ' ', 'b']).2 = [] ∧
      (({} : RequestArgs).getArg (sentSource [blankName] 0 0) ['a', '%', '2', '0', 'b']).2 =
        [['1']] := by
  refine ⟨fun retrievable => ?_, by decide, by decide⟩
  have found := retrievable ['a', ' ', 'b'] (by decide)
  revert found
  decide

end HttpServer
