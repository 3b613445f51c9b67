import HttpServer.SegmentTrie

/-!
HTTP methods, method sets and `http_endpoint`, the parsed form of a route
registration, together with the tier it is stored in. Failed registrations
carry the texts of the exceptions the source throws; every one of them is a
`std::invalid_argument`.
-/
namespace HttpServer

inductive HttpMethod where
  | get | head | post | put | del | connect | options | trace | patch | count_
  deriving DecidableEq, Repr

def HttpMethod.index : HttpMethod → Nat
  | .get => 0 | .head => 1 | .post => 2 | .put => 3 | .del => 4
  | .connect => 5 | .options => 6 | .trace => 7 | .patch => 8 | .count_ => 9

def HttpMethod.wireToken : HttpMethod → Str
  | .get => "GET".toList
  | .head => "HEAD".toList
  | .post => "POST".toList
  | .put => "PUT".toList
  | .del => "DELETE".toList
  | .connect => "CONNECT".toList
  | .options => "OPTIONS".toList
  | .trace => "TRACE".toList
  | .patch => "PATCH".toList
  | .count_ => []

def allMethods : List HttpMethod :=
  [.get, .head, .post, .put, .del, .connect, .options, .trace, .patch]

structure MethodSet where
  bits : BitVec 32
  deriving DecidableEq, Repr

namespace MethodSet

def methodBit (m : HttpMethod) : BitVec 32 := 1#32 <<< m.index

def validMethodMask : BitVec 32 := (1#32 <<< HttpMethod.count_.index) - 1#32

def noMethods : MethodSet := ⟨0#32⟩

def setAll : MethodSet := ⟨validMethodMask⟩

def contains (s : MethodSet) (m : HttpMethod) : Bool := s.bits &&& methodBit m ≠ 0#32

def set (s : MethodSet) (m : HttpMethod) : MethodSet := ⟨s.bits ||| methodBit m⟩

def clear (s : MethodSet) (m : HttpMethod) : MethodSet := ⟨s.bits &&& ~~~methodBit m⟩

def isEmpty (s : MethodSet) : Bool := s.bits &&& validMethodMask = 0#32

def union (a b : MethodSet) : MethodSet := ⟨a.bits ||| b.bits⟩

variable (s : MethodSet) (m : HttpMethod)

theorem index_lt : m.index < 32 := by
  cases m <;> decide

theorem index_inj {m n : HttpMethod} (same : m.index = n.index) : m = n := by
  cases m <;> cases n <;> first | rfl | cases same

theorem contains_eq_getLsbD : s.contains m = s.bits.getLsbD m.index := by
  have nonzero : BitVec.twoPow 32 m.index ≠ 0#32 := by
    intro zero
    have bit := congrArg (fun bits => bits.getLsbD m.index) zero
    simp [index_lt m] at bit
  rw [contains, methodBit, ← BitVec.twoPow_eq, BitVec.and_twoPow]
  cases s.bits.getLsbD m.index with
  | false => simp
  | true => simp [nonzero]

theorem getLsbD_methodBit (n : HttpMethod) : (methodBit m).getLsbD n.index = decide (m = n) := by
  rw [methodBit, ← BitVec.twoPow_eq, BitVec.getLsbD_twoPow]
  by_cases same : m = n
  · simp [same, index_lt n]
  · have apart : m.index ≠ n.index := fun equal => same (index_inj equal)
    simp [same, apart]

@[simp] theorem contains_set (n : HttpMethod) :
    (s.set m).contains n = (s.contains n || decide (m = n)) := by
  rw [contains_eq_getLsbD, contains_eq_getLsbD, set, BitVec.getLsbD_or, getLsbD_methodBit]

@[simp] theorem contains_clear (n : HttpMethod) :
    (s.clear m).contains n = (s.contains n && !decide (m = n)) := by
  rw [contains_eq_getLsbD, contains_eq_getLsbD, clear, BitVec.getLsbD_and, BitVec.getLsbD_not,
    getLsbD_methodBit, decide_eq_true (index_lt n), Bool.true_and]

@[simp] theorem contains_noMethods : noMethods.contains m = false := by
  cases m <;> decide

theorem contains_setAll : setAll.contains m = true ↔ m ≠ .count_ := by
  cases m <;> decide

theorem validMethodMask_eq :
    validMethodMask = allMethods.foldr (fun m mask => methodBit m ||| mask) 0#32 := by
  decide

theorem and_foldr_methodBit {bits : BitVec 32} {ms : List HttpMethod}
    (clear : ∀ m ∈ ms, bits &&& methodBit m = 0#32) :
    bits &&& ms.foldr (fun m mask => methodBit m ||| mask) 0#32 = 0#32 := by
  induction ms with
  | nil => simp
  | cons m ms ih =>
    rw [List.foldr_cons, BitVec.and_or_distrib_left, clear m (by simp),
      ih fun n listed => clear n (by simp [listed])]
    rfl

theorem exists_contains {s : MethodSet} (nonempty : s.isEmpty = false) :
    ∃ m ∈ allMethods, s.contains m = true := by
  by_contra none
  have clear : ∀ m ∈ allMethods, s.bits &&& methodBit m = 0#32 := by
    intro m listed
    by_contra bit
    exact none ⟨m, listed, by simpa [contains] using bit⟩
  simp [isEmpty, validMethodMask_eq, and_foldr_methodBit clear] at nonempty

end MethodSet

inductive RegistrationError where
  | nullResource
  | singleResourceRegister
  | embeddedNullBytes
  | noMethodBit
  | emptyHandler
  | singleResourceRoute
  | pathTooLong
  | sentinelMethod
  | regexWithoutRegistration
  | badUrlFormat
  | invalidRegex (source : Str)
  | invalidRoutePattern (source what : Str)
  | terminusCollision (key : Str) (wantIsPrefix : Bool)
  | duplicateRegistration (key : Str)
  | nonLambdaResource
  | slotTaken
  deriving DecidableEq, Repr

def RegistrationError.message : RegistrationError → Str
  | .nullResource => "The http_resource pointer cannot be null".toList
  | .singleResourceRegister =>
    ("The resource should be '' or '/' and be registered via " ++
      "register_prefix when using a single_resource server").toList
  | .embeddedNullBytes => "Route path must not contain embedded null bytes".toList
  | .noMethodBit => "route(method_set, ...) requires at least one method bit set".toList
  | .emptyHandler => "The handler function passed to on_*/route must be non-empty".toList
  | .singleResourceRoute =>
    ("When using a single_resource server, on_*/route requires " ++
      "the path to be '' or '/'").toList
  | .pathTooLong => "Route path exceeds maximum length of 8192 bytes".toList
  | .sentinelMethod =>
    ("http_method::count_ is a sentinel and may not be " ++ "registered as a route").toList
  | .regexWithoutRegistration => "Cannot use regex if not during registration".toList
  | .badUrlFormat => "Bad URL format".toList
  | .invalidRegex source => "Not a valid regex in URL: ".toList ++ source
  | .invalidRoutePattern source what =>
    "invalid regex route pattern '".toList ++ source ++ "': ".toList ++ what
  | .terminusCollision key wantIsPrefix =>
    "Path '".toList ++ key ++ "' is already registered as a ".toList ++
      (if wantIsPrefix then "exact" else "prefix").toList ++
      " route; cannot also register it as a ".toList ++
      (if wantIsPrefix then "prefix" else "exact").toList ++
      (" route (the (method, path) cache key cannot " ++ "discriminate the two)").toList
  | .duplicateRegistration key =>
    "A resource is already registered at this path: '".toList ++ key ++ "'".toList
  | .nonLambdaResource =>
    ("A non-lambda http_resource is already registered at " ++
      "this path; on_*/route cannot share a path with " ++
      "register_path/register_prefix").toList
  | .slotTaken =>
    ("A handler is already registered for one of the " ++
      "requested methods on this path").toList

structure HttpEndpoint where
  urlComplete : Str
  urlNormalized : Str
  urlPars : List Str
  urlPieces : List Str
  chunkPositions : List Nat
  familyUrl : Bool
  regCompiled : Bool
  deriving DecidableEq, Repr

/-- `normalize_url_complete`. On the empty string the source reads one byte
    before the text; whatever it finds there, the result is a single slash. -/
def normalizeUrlComplete (url : Str) : Str :=
  let stripped := if url.getLast? = some '/' then url.dropLast else url
  if stripped.head? = some '/' then stripped else '/' :: stripped

namespace HttpEndpoint

def appendNonRegistrationPart (e : HttpEndpoint) (part : Str) (first : Bool) : HttpEndpoint :=
  { e with
    urlNormalized := e.urlNormalized ++ ((if first then [] else ['/']) ++ part)
    urlPieces := e.urlPieces ++ [part] }

def appendLiteralUrlPart (e : HttpEndpoint) (part : Str) (first : Bool) : HttpEndpoint :=
  { e with
    urlNormalized :=
      if first then (if part.head? = some '^' then [] else e.urlNormalized) ++ part
      else e.urlNormalized ++ ('/' :: part)
    urlPieces := e.urlPieces ++ [part] }

def appendParameterUrlPart (e : HttpEndpoint) (part : Str) (i : Nat) (first : Bool) :
    Except RegistrationError HttpEndpoint :=
  if part.length < 3 ∨ part.head? ≠ some '{' ∨ part.getLast? ≠ some '}' then
    .error .badUrlFormat
  else
    let (name, regex) := parseWildcard part
    .ok { e with
      urlPars := e.urlPars ++ [name]
      urlNormalized := e.urlNormalized ++ ((if first then [] else ['/']) ++
        (if '|' ∈ part then regex else "([^\\/]+)".toList))
      chunkPositions := e.chunkPositions ++ [i]
      urlPieces := e.urlPieces ++ [part] }

def processUrlPart (registration : Bool) (e : HttpEndpoint) (part : Str) (i : Nat) :
    Except RegistrationError HttpEndpoint :=
  let first : Bool := i = 0
  if !registration then .ok (e.appendNonRegistrationPart part first)
  else if part ≠ [] ∧ part.head? ≠ some '{' then .ok (e.appendLiteralUrlPart part first)
  else e.appendParameterUrlPart part i first

def compileRegexUrl (rx : RegexEngine) (e : HttpEndpoint) : Except RegistrationError HttpEndpoint :=
  let pattern := e.urlNormalized ++ ['$']
  if rx.compiles pattern then .ok { e with urlNormalized := pattern, regCompiled := true }
  else .error (.invalidRegex pattern)

def make (rx : RegexEngine) (url : Str) (family registration useRegex : Bool) :
    Except RegistrationError HttpEndpoint := do
  if useRegex && !registration then throw .regexWithoutRegistration
  let seed : HttpEndpoint :=
    { urlComplete := normalizeUrlComplete url
      urlNormalized := if useRegex then "^/".toList else "/".toList
      urlPars := [], urlPieces := [], chunkPositions := []
      familyUrl := family, regCompiled := false }
  let parsed ← (tokenizeUrl url).zipIdx.foldlM
    (fun e part => processUrlPart registration e part.1 part.2) seed
  if useRegex then compileRegexUrl rx parsed else pure parsed

theorem RegistrationError.bind_ok {α β : Type} {x : Except RegistrationError α}
    {f : α → Except RegistrationError β} {b : β} (ok : (x >>= f) = .ok b) :
    ∃ a, x = .ok a ∧ f a = .ok b := by
  cases x with
  | error e => cases ok
  | ok a => exact ⟨a, rfl, ok⟩

theorem processUrlPart_ok {e e' : HttpEndpoint} {part : Str} {i : Nat}
    (ok : processUrlPart true e part i = .ok e') :
    e'.urlComplete = e.urlComplete ∧ e'.regCompiled = e.regCompiled ∧
      (isWildcardSegment part = false ∧ e'.urlPars = e.urlPars ∨
        isWildcardSegment part = true ∧ e'.urlPars ≠ []) := by
  unfold processUrlPart at ok
  by_cases literal : part ≠ [] ∧ part.head? ≠ some '{'
  · have plain : isWildcardSegment part = false := by simp [isWildcardSegment, literal.2]
    simp only [Bool.not_true, Bool.false_eq_true, if_false, if_pos literal, Except.ok.injEq] at ok
    subst ok
    exact ⟨rfl, rfl, Or.inl ⟨plain, rfl⟩⟩
  · simp only [Bool.not_true, Bool.false_eq_true, if_false, if_neg literal] at ok
    unfold appendParameterUrlPart at ok
    split at ok
    · cases ok
    · rename_i shape
      simp only [not_or, not_lt, not_not] at shape
      have wild : isWildcardSegment part = true := by
        have long : 2 ≤ part.length := by omega
        simp [isWildcardSegment, long, shape.2.1, shape.2.2]
      cases ok
      exact ⟨rfl, rfl, Or.inr ⟨wild, by simp⟩⟩

theorem parse_ok {parts : List (Str × Nat)} {e e' : HttpEndpoint}
    (ok : parts.foldlM (fun e part => processUrlPart true e part.1 part.2) e = .ok e') :
    e'.urlComplete = e.urlComplete ∧ e'.regCompiled = e.regCompiled ∧
      (e'.urlPars = [] ↔ e.urlPars = [] ∧ ∀ part ∈ parts, isWildcardSegment part.1 = false) := by
  induction parts generalizing e with
  | nil =>
    cases ok
    simp
  | cons part parts ih =>
    rw [List.foldlM_cons] at ok
    cases first : processUrlPart true e part.1 part.2 with
    | error err =>
      rw [first] at ok
      cases ok
    | ok middle =>
      rw [first] at ok
      obtain ⟨complete, compiled, pars⟩ := ih ok
      obtain ⟨complete', compiled', ⟨plain, same⟩ | ⟨wild, some_par⟩⟩ := processUrlPart_ok first
      · refine ⟨complete.trans complete', compiled.trans compiled', ?_⟩
        simp [pars, same, plain]
      · refine ⟨complete.trans complete', compiled.trans compiled', ?_⟩
        simp [pars, some_par, wild]

theorem make_ok {rx : RegexEngine} {url : Str} {family useRegex : Bool} {idx : HttpEndpoint}
    (ok : make rx url family true useRegex = .ok idx) :
    idx.urlComplete = normalizeUrlComplete url ∧ idx.regCompiled = useRegex ∧
      (idx.urlPars = [] ↔ ∀ seg ∈ tokenizeUrl url, isWildcardSegment seg = false) := by
  unfold make at ok
  simp only [Bool.not_true, Bool.and_false, Bool.false_eq_true, if_false] at ok
  obtain ⟨-, -, ok⟩ := RegistrationError.bind_ok ok
  obtain ⟨parsed, run, rest⟩ := RegistrationError.bind_ok ok
  obtain ⟨complete, compiled, pars⟩ := parse_ok run
  have pieces : (∀ part ∈ (tokenizeUrl url).zipIdx, isWildcardSegment part.1 = false) ↔
      ∀ seg ∈ tokenizeUrl url, isWildcardSegment seg = false := by
    conv_rhs => rw [← List.zipIdx_map_fst 0 (tokenizeUrl url)]
    constructor
    · intro all seg member
      obtain ⟨part, listed, rfl⟩ := List.mem_map.mp member
      exact all part listed
    · intro all part listed
      exact all part.1 (List.mem_map_of_mem listed)
  have listed := pars.trans (and_iff_right rfl) |>.trans pieces
  cases useRegex with
  | false =>
    cases rest
    exact ⟨complete, compiled, listed⟩
  | true =>
    simp only [if_true, compileRegexUrl] at rest
    split at rest
    · cases rest
      exact ⟨complete, rfl, listed⟩
    · cases rest

end HttpEndpoint

theorem tokenizeUrl_normalizeUrlComplete (url : Str) :
    tokenizeUrl (normalizeUrlComplete url) = tokenizeUrl url := by
  have lead : ∀ s : Str, tokenizeUrl ('/' :: s) = tokenizeUrl s := by
    intro s
    simp [tokenizeUrl, stringSplit]
  have trail : ∀ s : Str, tokenizeUrl (s ++ ['/']) = tokenizeUrl s := by
    intro s
    rcases Fields.fields_concat_sep '/' s with same | longer
    · simp [tokenizeUrl, stringSplit, same]
    · simp [tokenizeUrl, stringSplit, longer]
  have stripped : tokenizeUrl (if url.getLast? = some '/' then url.dropLast else url) =
      tokenizeUrl url := by
    split
    · rename_i slash
      have whole := List.dropLast_append_getLast? '/' slash
      rw [← trail, whole]
    · rfl
  have absolute : ∀ s : Str, tokenizeUrl (if s.head? = some '/' then s else '/' :: s) =
      tokenizeUrl s := by
    intro s
    split
    · rfl
    · exact lead s
  exact (absolute _).trans stripped

theorem normalizeUrlComplete_eq (path : Str) :
    normalizeUrlComplete path = '/' :: ['/'].intercalate (poppedSegments path) := by
  rw [poppedSegments, Fields.intercalate_fields]
  have absolute : ∀ s : Str, normalizeUrlComplete ('/' :: s) =
      '/' :: if s.getLast? = some '/' then s.dropLast else s := by
    intro s
    by_cases last : s = []
    · subst last
      rfl
    · simp only [normalizeUrlComplete, List.getLast?_cons_of_ne_nil last,
        List.dropLast_cons_of_ne_nil last]
      split
      · rfl
      · rfl
  by_cases slash : path.head? = some '/'
  · obtain ⟨rest, rfl⟩ := List.head?_eq_some_iff.mp slash
    exact absolute rest
  · have skip : skipLeadingSlash path = path := by
      unfold skipLeadingSlash
      split
      · exact absurd rfl slash
      · rfl
    have bare : (if path.getLast? = some '/' then path.dropLast else path).head? ≠ some '/' := by
      split
      · rw [List.head?_dropLast]
        split
        · exact slash
        · simp
      · exact slash
    rw [skip, normalizeUrlComplete]
    exact if_neg bare

theorem HttpEndpoint.make_congr {url url' : Str}
    (same : normalizeUrlComplete url = normalizeUrlComplete url') (rx : RegexEngine)
    (family registration useRegex : Bool) :
    make rx url family registration useRegex = make rx url' family registration useRegex := by
  have tokens : tokenizeUrl url = tokenizeUrl url' := by
    rw [← tokenizeUrl_normalizeUrlComplete url, same, tokenizeUrl_normalizeUrlComplete]
  unfold make
  rw [same, tokens]

/-- `route_tier_kind`; the regex tier carries the compiled pattern. -/
inductive RouteTier where
  | exact
  | radix
  | regex (re : Str)
  deriving DecidableEq, Repr

def classifyRouteTier (rx : RegexEngine) (idx : HttpEndpoint) : Except RegistrationError RouteTier :=
  if idx.urlPars ≠ [] then .ok .radix
  else if idx.regCompiled then
    if !rx.compiles idx.urlNormalized then .error (.invalidRoutePattern idx.urlNormalized [])
    else if rx.regexMatch idx.urlComplete idx.urlNormalized then .ok .exact
    else .ok (.regex idx.urlNormalized)
  else .ok .exact

end HttpServer
