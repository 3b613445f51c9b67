import HttpServer.SegmentTrie

/-!
The authentication skip list and the path it is compared with. Routing and the
skip check each normalise what they are given; on a dispatch path neither
changes anything, so the two decide about the same segments.
-/
namespace HttpServer
open Fields

inductive SkipPathError where
  | percentEncoded (entry : Str)
  deriving DecidableEq, Repr

def SkipPathError.message : SkipPathError → Str
  | .percentEncoded entry =>
    ("auth_skip_paths entry contains a percent-encoded " ++ "sequence ('").toList ++ entry ++
      ("'). " ++ "Skip-path entries must be provided in decoded form " ++
        "(e.g. '/public/test', not '/public%2Ftest').").toList

def hasWildcardSuffix (entry : Str) : Bool := ['/', '*'].isSuffixOf entry

def normalizeAuthSkipPath (entry : Str) : Except SkipPathError Str :=
  if '%' ∈ entry then .error (.percentEncoded entry)
  else if hasWildcardSuffix entry then
    if entry.length = 2 then .ok ['/', '*']
    else
      let normalized := normalizePath (entry.take (entry.length - 2))
      if normalized = ['/'] then .ok ['/', '*'] else .ok (normalized ++ ['/', '*'])
  else .ok (normalizePath entry)

def normalizeAuthSkipPaths (raw : List Str) : Except SkipPathError (List Str) :=
  raw.mapM normalizeAuthSkipPath

/-- The body of the `should_skip_auth` loop, on the normalised request path. -/
def skipPathMatches (normalized skipPath : Str) : Bool :=
  skipPath = normalized ||
    (hasWildcardSuffix skipPath && skipPath.dropLast.isPrefixOf normalized)

def shouldSkipAuth (authSkipPathsNormalized : List Str) (path : Str) : Bool :=
  if authSkipPathsNormalized = [] then false
  else authSkipPathsNormalized.any (skipPathMatches (normalizePath path))

theorem shouldSkipAuth_eq_any (skip : List Str) (path : Str) :
    shouldSkipAuth skip path = skip.any (skipPathMatches (normalizePath path)) := by
  unfold shouldSkipAuth
  split
  · rename_i none_listed
    simp [none_listed]
  · rfl

theorem shouldSkipAuth_text (skip : List Str) (c : CanonicalPath) :
    shouldSkipAuth skip c.text = skip.any (skipPathMatches c.text) := by
  rw [shouldSkipAuth_eq_any, c.normalizePath_text]

def normalizedSegments (path : Str) : List Str := tokenizeUrl (normalizePath path)

theorem normalizedSegments_eq (path : Str) :
    normalizedSegments path = (resolvePath path).segments := by
  rw [normalizedSegments, normalizePath_eq_text, CanonicalPath.tokenizeUrl_text]

def Covers (stem segs : List Str) : Prop := stem = [] ∨ (stem <+: segs ∧ stem ≠ segs)

def skipStem (entry : Str) : List Str := normalizedSegments (entry.take (entry.length - 2))

def SkipEntryMeans (entry path : Str) : Prop :=
  if hasWildcardSuffix entry then Covers (skipStem entry) (normalizedSegments path)
  else normalizePath entry = normalizePath path

/-- An entry without the wildcard suffix whose normal form ends in one, such as
    `*` and `/a/*/`. -/
def StrayWildcard (entry : Str) : Prop :=
  hasWildcardSuffix entry = false ∧ (normalizedSegments entry).getLast? = some ['*']

theorem directory_prefix_iff {stem : List Str} (clean : ∀ s ∈ stem, '/' ∉ s) (c : CanonicalPath) :
    lead '/' stem ++ ['/'] <+: c.text ↔ Covers stem c.segments := by
  by_cases root : c.segments = []
  · have bare : c.text = ['/'] := by simp [CanonicalPath.text, root]
    rw [bare, Covers, root]
    cases stem with
    | nil => simp [lead]
    | cons s rest => simp [lead_cons]
  · rw [c.text_eq_lead root, lead_sep_prefix_iff clean fun s member => (c.proper s member).2.2.2]
    constructor
    · exact Or.inr
    · rintro (rfl | proper)
      · exact ⟨List.nil_prefix, Ne.symm root⟩
      · exact proper

theorem wildcard_suffix_iff {front last : Str} (clean : '/' ∉ last) :
    ['/', '*'] <:+ front ++ '/' :: last ↔ last = ['*'] := by
  constructor
  · rintro ⟨before, same⟩
    rcases List.eq_nil_or_concat' last with rfl | ⟨init, c, rfl⟩
    · have ends := congrArg List.getLast? same
      simp at ends
    · have both : (before ++ ['/']) ++ ['*'] = (front ++ '/' :: init) ++ [c] := by simpa using same
      obtain ⟨stems, star⟩ := List.append_inj' both rfl
      obtain rfl : '*' = c := by simpa using star
      rcases List.eq_nil_or_concat' init with rfl | ⟨init, d, rfl⟩
      · rfl
      · have ends : before ++ ['/'] = (front ++ '/' :: init) ++ [d] := by simpa using stems
        obtain ⟨-, slash⟩ := List.append_inj' ends rfl
        obtain rfl : '/' = d := by simpa using slash
        exact absurd (by simp) clean
  · rintro rfl
    exact ⟨front, rfl⟩

theorem hasWildcardSuffix_iff (entry : Str) :
    hasWildcardSuffix entry = true ↔ ['/', '*'] <:+ entry := by
  rw [hasWildcardSuffix, List.isSuffixOf_iff_suffix]

theorem hasWildcardSuffix_text (c : CanonicalPath) :
    (hasWildcardSuffix c.text = true ↔ c.segments.getLast? = some ['*']) ∧
      (c.segments.getLast? = some ['*'] →
        c.text.dropLast = lead '/' c.segments.dropLast ++ ['/']) := by
  rcases List.eq_nil_or_concat' c.segments with root | ⟨above, last, shape⟩
  · have bare : c.text = ['/'] := by simp [CanonicalPath.text, root]
    rw [bare, root]
    exact ⟨by decide, by simp⟩
  · have text : c.text = lead '/' above ++ '/' :: last := by
      rw [c.text_eq_lead (by simp [shape]), shape, lead_append, lead_cons]
      simp [lead]
    have clean : '/' ∉ last := (c.proper last (by simp [shape])).2.2.2
    rw [hasWildcardSuffix_iff, text, wildcard_suffix_iff clean, shape]
    constructor
    · simp
    · intro star
      obtain rfl : last = ['*'] := by simpa using star
      rw [show lead '/' above ++ ['/', '*'] = (lead '/' above ++ ['/']) ++ ['*'] by simp]
      simp only [List.dropLast_concat]

theorem skipPathMatches_iff (normalized skipPath : Str) :
    skipPathMatches normalized skipPath = true ↔ skipPath = normalized ∨
      hasWildcardSuffix skipPath = true ∧ skipPath.dropLast <+: normalized := by
  simp [skipPathMatches, List.isPrefixOf_iff_prefix]

theorem stem_clean (entry : Str) : ∀ s ∈ skipStem entry, '/' ∉ s := by
  intro s member
  rw [skipStem, normalizedSegments_eq] at member
  exact ((resolvePath _).proper s member).2.2.2

theorem normalizeAuthSkipPath_wildcard {entry : Str} (decoded : '%' ∉ entry)
    (wildcard : hasWildcardSuffix entry = true) :
    normalizeAuthSkipPath entry = .ok (lead '/' (skipStem entry) ++ ['/', '*']) := by
  have text := normalizePath_eq_text (entry.take (entry.length - 2))
  rw [normalizeAuthSkipPath, if_neg decoded, if_pos wildcard, skipStem, normalizedSegments_eq]
  by_cases short : entry.length = 2
  · rw [if_pos short, short]
    rfl
  · rw [if_neg short]
    dsimp only
    rw [text]
    by_cases root : (resolvePath (entry.take (entry.length - 2))).segments = []
    · rw [if_pos (by simp [CanonicalPath.text, root]), root]
      rfl
    · have longer : (resolvePath (entry.take (entry.length - 2))).text ≠ ['/'] := by
        intro bare
        have none := (resolvePath (entry.take (entry.length - 2))).tokenizeUrl_text
        rw [bare] at none
        exact root none.symm
      rw [if_neg longer, CanonicalPath.text_eq_lead _ root]

theorem skipPathMatches_entry {entry : Str} (decoded : '%' ∉ entry) :
    ∃ skipPath, normalizeAuthSkipPath entry = .ok skipPath ∧
      ∀ path, skipPathMatches (normalizePath path) skipPath = true ↔
        SkipEntryMeans entry path ∨ StrayWildcard entry ∧
          Covers (normalizedSegments entry).dropLast (normalizedSegments path) := by
  cases wildcard : hasWildcardSuffix entry with
  | true =>
    refine ⟨_, normalizeAuthSkipPath_wildcard decoded wildcard, fun path => ?_⟩
    have directory := directory_prefix_iff (stem_clean entry) (resolvePath path)
    have cut : (lead '/' (skipStem entry) ++ ['/', '*']).dropLast =
        lead '/' (skipStem entry) ++ ['/'] := by
      rw [List.dropLast_append_of_ne_nil (by simp)]
      rfl
    have suffix : hasWildcardSuffix (lead '/' (skipStem entry) ++ ['/', '*']) = true :=
      (hasWildcardSuffix_iff _).mpr ⟨_, rfl⟩
    rw [skipPathMatches_iff, cut, normalizePath_eq_text path, directory, SkipEntryMeans,
      if_pos wildcard, StrayWildcard, wildcard, normalizedSegments_eq path]
    constructor
    · rintro (same | ⟨-, covered⟩)
      · have front : lead '/' (skipStem entry) ++ ['/'] <+: (resolvePath path).text := by
          rw [← same]
          exact ⟨['*'], by simp⟩
        exact Or.inl (directory.mp front)
      · exact Or.inl covered
    · rintro (covered | ⟨⟨stray, -⟩, -⟩)
      · exact Or.inr ⟨suffix, covered⟩
      · cases stray
  | false =>
    refine ⟨normalizePath entry, ?_, fun path => ?_⟩
    · rw [normalizeAuthSkipPath, if_neg decoded, wildcard, if_neg (by decide)]
    · have reads := hasWildcardSuffix_text (resolvePath entry)
      have clean : ∀ s ∈ (resolvePath entry).segments.dropLast, '/' ∉ s := fun s member =>
        ((resolvePath entry).proper s ((List.dropLast_sublist _).subset member)).2.2.2
      have directory := directory_prefix_iff clean (resolvePath path)
      rw [skipPathMatches_iff, SkipEntryMeans, if_neg (by simp [wildcard]), StrayWildcard, wildcard,
        normalizedSegments_eq, normalizedSegments_eq, normalizePath_eq_text entry,
        normalizePath_eq_text path, reads.1]
      constructor
      · rintro (same | ⟨star, covered⟩)
        · exact Or.inl same
        · rw [reads.2 star] at covered
          exact Or.inr ⟨⟨rfl, star⟩, directory.mp covered⟩
      · rintro (same | ⟨⟨-, star⟩, covered⟩)
        · exact Or.inl same
        · refine Or.inr ⟨star, ?_⟩
          rw [reads.2 star]
          exact directory.mpr covered

theorem shouldSkipAuth_entries {raw : List Str} (decoded : ∀ entry ∈ raw, '%' ∉ entry) :
    ∃ skip, normalizeAuthSkipPaths raw = .ok skip ∧
      ∀ path, shouldSkipAuth skip path = true ↔ ∃ entry ∈ raw,
        SkipEntryMeans entry path ∨ StrayWildcard entry ∧
          Covers (normalizedSegments entry).dropLast (normalizedSegments path) := by
  simp only [shouldSkipAuth_eq_any]
  induction raw with
  | nil => exact ⟨[], rfl, by simp⟩
  | cons entry raw ih =>
    obtain ⟨skipPath, first, means⟩ := skipPathMatches_entry (decoded entry (by simp))
    obtain ⟨skip, rest, others⟩ := ih fun e member => decoded e (by simp [member])
    refine ⟨skipPath :: skip, ?_, fun path => ?_⟩
    · rw [normalizeAuthSkipPaths] at rest ⊢
      rw [List.mapM_cons, first, rest]
      rfl
    · rw [List.any_cons, Bool.or_eq_true, means path, others path]
      simp

/-- The skip list decides as its entries are written exactly when no stray
    wildcard covers a path that no entry is written for. -/
theorem skip_list_means_entries_iff (raw : List Str) (decoded : ∀ entry ∈ raw, '%' ∉ entry)
    (path : Str) :
    ∃ skip, normalizeAuthSkipPaths raw = .ok skip ∧
      ((shouldSkipAuth skip path = true ↔ ∃ entry ∈ raw, SkipEntryMeans entry path) ↔
        ∀ entry ∈ raw, StrayWildcard entry →
          Covers (normalizedSegments entry).dropLast (normalizedSegments path) →
          ∃ other ∈ raw, SkipEntryMeans other path) := by
  obtain ⟨skip, listed, decides⟩ := shouldSkipAuth_entries decoded
  refine ⟨skip, listed, ?_⟩
  rw [decides path]
  constructor
  · intro agrees entry member stray covered
    exact agrees.mp ⟨entry, member, Or.inr ⟨stray, covered⟩⟩
  · intro meant
    constructor
    · rintro ⟨entry, member, means | ⟨stray, covered⟩⟩
      · exact ⟨entry, member, means⟩
      · exact meant entry member stray covered
    · rintro ⟨entry, member, means⟩
      exact ⟨entry, member, Or.inl means⟩

theorem skip_list_means_wildcard_and_literal :
    ∃ skip, normalizeAuthSkipPaths ["/public/*".toList, "/a/../health/".toList] = .ok skip ∧
      (shouldSkipAuth skip "/public/docs/api".toList = true ↔
        ∃ entry ∈ ["/public/*".toList, "/a/../health/".toList],
          SkipEntryMeans entry "/public/docs/api".toList) := by
  obtain ⟨skip, listed, decides⟩ := skip_list_means_entries_iff
    ["/public/*".toList, "/a/../health/".toList] (by decide) "/public/docs/api".toList
  refine ⟨skip, listed, decides.mpr ?_⟩
  intro entry member stray
  simp only [List.mem_cons, List.not_mem_nil, or_false] at member
  rcases member with rfl | rfl
  · cases stray.1
  · cases stray.2

/-- The entry `*` reads as the wildcard of everything, and `/a/*/` as `/a/*`. -/
theorem stray_wildcards_open_paths :
    (∃ skip, normalizeAuthSkipPaths ["*".toList] = .ok skip ∧
      ¬(shouldSkipAuth skip "/admin".toList = true ↔
        ∃ entry ∈ ["*".toList], SkipEntryMeans entry "/admin".toList)) ∧
    ∃ skip, normalizeAuthSkipPaths ["/a/*/".toList] = .ok skip ∧
      ¬(shouldSkipAuth skip "/a/admin".toList = true ↔
        ∃ entry ∈ ["/a/*/".toList], SkipEntryMeans entry "/a/admin".toList) := by
  constructor
  · refine ⟨["/*".toList], rfl, fun agrees => ?_⟩
    obtain ⟨entry, member, means⟩ := agrees.mp rfl
    rw [List.mem_singleton.mp member] at means
    have same : normalizePath "*".toList = normalizePath "/admin".toList := means
    exact absurd same (by decide)
  · refine ⟨["/a/*".toList], rfl, fun agrees => ?_⟩
    obtain ⟨entry, member, means⟩ := agrees.mp rfl
    rw [List.mem_singleton.mp member] at means
    have same : normalizePath "/a/*/".toList = normalizePath "/a/admin".toList := means
    exact absurd same (by decide)

/-- Authentication and routing see the same path. `t` is what unescaping made
    of the URL, by whichever unescaper. -/
theorem dispatch_path_is_canonical (t : Str) :
    let d := normalizePath (standardizeUrl t)
    d.head? = some '/' ∧ (∀ seg ∈ poppedSegments d, ProperSegment seg) ∧
      d = '/' :: ['/'].intercalate (tokenizeUrl d) ∧
      standardizeUrl d = d ∧ normalizePath d = d ∧ canonicalizeLookupPath d = d ∧
      poppedSegments d = tokenizeUrl d ∧
      (∀ skip, shouldSkipAuth skip d = skip.any (skipPathMatches d)) ∧
      ∀ (T : Type) (rx : RegexEngine) (root : TrieNode T),
        root.find rx (canonicalizeLookupPath d) = root.findSegments rx (tokenizeUrl d) := by
  intro d
  have rendered : d = (resolvePath (standardizeUrl t)).text := normalizePath_eq_text _
  rw [rendered]
  generalize resolvePath (standardizeUrl t) = c
  refine ⟨rfl, ?_, ?_, c.standardizeUrl_text, c.normalizePath_text,
    c.canonicalizeLookupPath_text, ?_, fun skip => shouldSkipAuth_text skip c, ?_⟩
  · rw [c.poppedSegments_text]
    exact c.proper
  · rw [c.tokenizeUrl_text]
    rfl
  · rw [c.poppedSegments_text, c.tokenizeUrl_text]
  · intro T rx root
    rw [c.canonicalizeLookupPath_text, TrieNode.find, c.poppedSegments_text, c.tokenizeUrl_text]

end HttpServer
