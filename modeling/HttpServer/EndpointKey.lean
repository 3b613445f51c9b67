import HttpServer.Registration

/-!
The two normalisers of a route path by character positions: the one that
`http_endpoint` runs on the path it stores and the one a lookup runs on the path
it asks for. They are one function, but the first reads the last character of
its text without asking whether there is one.
-/
namespace HttpServer

/-- `std::string::operator[]`: the terminator stands at the end, and behind it
    nothing may be read. -/
def charAt (s : Str) (i : Nat) : Option Char := if i = s.length then some '\x00' else s[i]?

/-- `size() - 1` in `size_t`. -/
def lastIndex (s : Str) : Nat := if s.length = 0 then UInt64.size - 1 else s.length - 1

/-- `normalize_url_complete`, `none` when it reads outside the text. -/
def normalizeUrlCompleteAt (url : Str) : Option Str := do
  let last ← charAt url (lastIndex url)
  let url := if last = '/' then url.take (url.length - 1) else url
  let first ← charAt url 0
  pure (if first ≠ '/' then '/' :: url else url)

/-- `canonicalize_lookup_path`, whose view has no terminator. -/
def canonicalizeLookupPathAt (path : Str) : Option Str :=
  if path = [] then some ['/']
  else do
    let front ← path[0]?
    let hasTrailingSlash ←
      if path.length > 1 then (path[path.length - 1]?).map fun back => decide (back = '/')
      else pure false
    if front = '/' ∧ hasTrailingSlash = false then pure path
    else
      pure ((if front = '/' then [] else ['/']) ++
        (if hasTrailingSlash then path.take (path.length - 1) else path))

theorem charAt_last {s : Str} (some_ : s ≠ []) : charAt s (lastIndex s) = s.getLast? := by
  have long := List.length_pos_iff.mpr some_
  have index : lastIndex s = s.length - 1 := if_neg (by omega)
  rw [index, charAt, if_neg (by omega), List.getLast?_eq_getElem?]

theorem charAt_first (s : Str) : charAt s 0 = some (s.headD '\x00') := by
  cases s with
  | nil => rfl
  | cons c rest => rfl

theorem normalizeUrlCompleteAt_eq {url : Str} (some_ : url ≠ []) :
    normalizeUrlCompleteAt url = some (normalizeUrlComplete url) := by
  have read := charAt_last some_
  obtain ⟨last, ends⟩ : ∃ last, url.getLast? = some last :=
    ⟨url.getLast some_, List.getLast?_eq_some_getLast some_⟩
  have headed : ∀ s : Str, (s.headD '\x00' = '/') ↔ s.head? = some '/' := by
    intro s
    cases s with
    | nil => simp
    | cons c rest => simp
  rw [normalizeUrlCompleteAt, read, ends, normalizeUrlComplete, ends, List.dropLast_eq_take]
  simp only [Option.bind_eq_bind, Option.bind_some, charAt_first, Option.pure_def, ne_eq, headed,
    Option.some.injEq, ite_not]

theorem canonicalizeLookupPathAt_eq (path : Str) :
    canonicalizeLookupPathAt path = some (canonicalizeLookupPath path) := by
  cases path with
  | nil => rfl
  | cons c rest =>
    have back : (c :: rest)[(c :: rest).length - 1]? = (c :: rest).getLast? :=
      List.getLast?_eq_getElem?.symm
    obtain ⟨last, ends⟩ : ∃ last, (c :: rest).getLast? = some last :=
      ⟨_, List.getLast?_eq_some_getLast (List.cons_ne_nil c rest)⟩
    rw [canonicalizeLookupPathAt, back, ends, canonicalizeLookupPath, ends, List.dropLast_eq_take]
    cases rest with
    | nil =>
      by_cases leading : c = '/'
      · simp [leading]
      · simp [leading]
    | cons d rest =>
      by_cases leading : c = '/'
      · by_cases trailing : last = '/'
        · simp [leading, trailing]
        · simp [leading, trailing]
      · by_cases trailing : last = '/'
        · simp [leading, trailing]
        · simp [leading, trailing]

theorem normalizeUrlComplete_eq_canonical (url : Str) :
    normalizeUrlComplete url = canonicalizeLookupPath url := by
  cases url with
  | nil => rfl
  | cons c rest =>
    rw [normalizeUrlComplete, canonicalizeLookupPath, if_neg (List.cons_ne_nil c rest)]
    cases rest with
    | nil =>
      by_cases slash : c = '/'
      · simp [slash]
      · simp [slash]
    | cons d rest =>
      by_cases trailing : (d :: rest).getLast? = some '/'
      · by_cases slash : c = '/'
        · simp [trailing, slash]
        · simp [trailing, slash]
      · by_cases slash : c = '/'
        · simp [trailing, slash]
        · simp [trailing, slash]

/-- The endpoint of a path stores its canonical lookup path, and neither
    normaliser reads a character outside its text. -/
structure CanonicalKey (rx : RegexEngine) (cfg : RouteConfig) (path : Str) : Prop where
  inside : (normalizeUrlCompleteAt path).isSome
  lookupInside : (canonicalizeLookupPathAt path).isSome
  key : ∀ family idx, HttpEndpoint.make rx path family true cfg.regexChecking = .ok idx →
    idx.urlComplete = canonicalizeLookupPath path

/-- It does for every path but the empty one. -/
theorem canonical_key_iff (rx : RegexEngine) (cfg : RouteConfig) (path : Str) :
    CanonicalKey rx cfg path ↔ path ≠ [] := by
  constructor
  · intro canonical empty
    have read := canonical.inside
    rw [empty] at read
    cases read
  · intro some_
    refine ⟨by rw [normalizeUrlCompleteAt_eq some_]; rfl,
      by rw [canonicalizeLookupPathAt_eq]; rfl, ?_⟩
    intro family idx made
    rw [(HttpEndpoint.make_ok made).1, normalizeUrlComplete_eq_canonical]

/-- The empty path passes the checks of `register_path`, `register_prefix` and
    `on_get`, and the character in front of the text is read for it. -/
theorem empty_path_read_outside :
    let cfg : RouteConfig := ⟨false, false⟩
    validateRegisterInputs cfg [] (some 0) false = .ok 0 ∧
      validateRegisterInputs cfg [] (some 0) true = .ok 0 ∧
      validateOnMethodsInputs cfg (MethodSet.noMethods.set .get) [] (some 0) = .ok 0 ∧
      normalizeUrlCompleteAt [] = none := by
  decide

end HttpServer
