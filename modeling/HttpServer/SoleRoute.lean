import HttpServer.TrieDescent
import HttpServer.RegistrationEffects

/-!
A server whose only route is one literal path. Registration stores the path
under its own text, with one trailing slash dropped and a leading slash added;
a request is looked up under the text its URL has after decoding and
normalising. The route is reached when the two texts agree. With regex checking
a path is a pattern, and one that matches its own text is stored under that
text alone.
-/
namespace HttpServer
open Effect LruCache

/-- No entry anywhere; nodes of the trie may be left over. -/
def RouteTable.NoRoute (t : RouteTable) : Prop :=
  t.exactRoutes = [] ∧ t.regexRoutes = [] ∧
    ∀ shape isPrefix, t.paramAndPrefixRoutes.terminusAt shape isPrefix = none

namespace RouteTable
variable {rx : RegexEngine} {t : RouteTable}

theorem noRoute_empty : RouteTable.empty.NoRoute := by
  refine ⟨rfl, rfl, TrieNode.terminusAt_bare TrieNode.next_empty fun isPrefix => ?_⟩
  cases isPrefix <;> rfl

theorem NoRoute.find (noRoute : t.NoRoute) (path : Str) :
    t.paramAndPrefixRoutes.find rx path = none := by
  cases found : t.paramAndPrefixRoutes.find rx path with
  | none => rfl
  | some m =>
    obtain ⟨shape, reached⟩ := TrieNode.findSegments_some found
    have stored := reached.terminusAt
    rw [noRoute.2.2] at stored
    cases stored

theorem NoRoute.coldLookup_exact (noRoute : t.NoRoute) (key : Str) (entry : RouteEntry)
    (c : CanonicalPath) :
    RouteTable.coldLookup rx { t with exactRoutes := t.exactRoutes ++ [(key, entry)] } c.text =
      if c.text = key then some (entry, []) else none := by
  unfold coldLookup probeExact walkTiers
  simp only [CanonicalPath.canonicalizeLookupPath_text, noRoute.1, List.nil_append,
    Assoc.lookup_cons_if, List.lookup_nil, noRoute.find c.text, noRoute.2.1, List.find?_nil,
    eq_comm (a := key)]
  split
  · rename_i hit
    split at hit
    · simp_all
    · cases hit
  · rename_i miss
    split at miss
    · cases miss
    · simp_all

theorem NoRoute.coldLookup_regex (noRoute : t.NoRoute) (key re : Str) (entry : RouteEntry)
    (c : CanonicalPath) :
    RouteTable.coldLookup rx { t with regexRoutes := t.regexRoutes ++ [⟨key, re, entry⟩] } c.text =
      if rx.regexMatch c.text re then some (entry, []) else none := by
  unfold coldLookup probeExact walkTiers
  simp only [CanonicalPath.canonicalizeLookupPath_text, noRoute.1, List.lookup_nil,
    noRoute.find c.text, noRoute.2.1, List.nil_append, List.find?_cons, List.find?_nil]
  by_cases hit : rx.regexMatch c.text re = true
  · simp [hit, answer]
  · simp [hit]

end RouteTable

namespace Server
variable {rx : RegexEngine} {cfg : RouteConfig} {s : Server}

def routesTo (rx : RegexEngine) (s : Server) (method : HttpMethod) (path : Str)
    (handler : Handler) : Prop :=
  (s.registry.table.lookupV2 rx s.cache method path).2.map (fun found => found.entry.handler) =
    some handler

instance decidableRoutesTo (s : Server) (method : HttpMethod) (path : Str) (handler : Handler) :
    Decidable (s.routesTo rx method path handler) :=
  inferInstanceAs (Decidable (_ = _))

theorem routesTo_after_call {c : RouteCall} (ok : outcome (c.mutate rx cfg) s.registry = .ok ())
    (method : HttpMethod) (path : Str) (handler : Handler) :
    (s.call rx cfg c).routesTo rx method path handler ↔
      ((after (c.mutate rx cfg) s.registry).table.coldLookup rx path).map
        (fun found => found.1.handler) = some handler := by
  have state : s.call rx cfg c = ⟨after (c.mutate rx cfg) s.registry, s.cache.clear⟩ := by
    simp [call, ok]
  rw [state, ← RouteTable.lookupV2_answer Lru.holds_clear method path, Option.map_map]
  exact Iff.rfl

theorem routesTo_sole {path : Str} {res : Nat} {idx : HttpEndpoint}
    (noRoute : s.registry.table.NoRoute)
    (accepted : outcome ((RouteCall.registerPath path (some res)).mutate rx cfg) s.registry = .ok ())
    (parsed : HttpEndpoint.make rx path false true cfg.regexChecking = .ok idx)
    (plain : idx.urlPars = []) (method : HttpMethod) (c : CanonicalPath) :
    (s.call rx cfg (.registerPath path (some res))).routesTo rx method c.text (.resource res) ↔
      (classifyRouteTier rx idx = .ok .exact ∧ c.text = idx.urlComplete ∨
        ∃ re, classifyRouteTier rx idx = .ok (.regex re) ∧ rx.regexMatch c.text re = true) := by
  rw [routesTo_after_call accepted]
  obtain ⟨id, idx', t, valid, parsed', placed, state⟩ := registerImpl_ok accepted
  obtain ⟨same, -⟩ := validateRegisterInputs_ok valid
  cases same
  rw [parsed] at parsed'
  cases parsed'
  rw [show (RouteCall.registerPath path (some res)).mutate rx cfg =
    registerImpl rx cfg path (some res) false from rfl, state]
  cases placed with
  | trie stored => simp [plain] at stored
  | exactly single tier free =>
    rw [noRoute.coldLookup_exact]
    simp only [tier]
    by_cases hit : c.text = idx.urlComplete
    · simp [hit]
    · simp [hit]
  | regex re single tier free =>
    rw [noRoute.coldLookup_regex]
    simp only [tier]
    by_cases hit : rx.regexMatch c.text re = true
    · simp [hit]
    · simp [hit]

end Server

theorem requestUrl_cases (path : Str) :
    requestUrl path = normalizeUrlComplete path ∨
      requestUrl path = normalizeUrlComplete path ++ ['/'] := by
  by_cases trailing : path.getLast? = some '/'
  · obtain ⟨front, rfl⟩ : ∃ front, path = front ++ ['/'] :=
      ⟨path.dropLast, (List.dropLast_append_getLast? '/' trailing).symm⟩
    by_cases root : front = []
    · subst root
      exact Or.inl rfl
    · have head : (front ++ ['/']).head? = front.head? := List.head?_append_of_ne_nil _ root
      right
      by_cases slash : front.head? = some '/'
      · simp [requestUrl, normalizeUrlComplete, head, slash]
      · simp [requestUrl, normalizeUrlComplete, head, slash]
  · left
    simp [requestUrl, normalizeUrlComplete, trailing]

variable {path url : Str} {x : Char}

theorem mem_requestUrl (member : x ∈ requestUrl path) : x = '/' ∨ x ∈ path := by
  unfold requestUrl at member
  split at member
  · exact Or.inr member
  · exact List.mem_cons.mp member

theorem mem_normalizeUrlComplete (member : x ∈ path) (plain : x ≠ '/') :
    x ∈ normalizeUrlComplete path := by
  have stripped : x ∈ (if path.getLast? = some '/' then path.dropLast else path) := by
    split
    · rename_i trailing
      rw [← List.dropLast_append_getLast? '/' trailing] at member
      rcases List.mem_append.mp member with front | slash
      · exact front
      · exact absurd (List.mem_singleton.mp slash) plain
    · exact member
  have absolute : ∀ {s : Str}, x ∈ s → x ∈ requestUrl s := by
    intro s inside
    unfold requestUrl
    split
    · exact inside
    · exact List.mem_cons_of_mem _ inside
  exact absolute stripped

theorem dispatchPath_none_of_clean (noPlus : '+' ∉ url) (noPercent : '%' ∉ url)
    (noNul : '\x00' ∉ url) : dispatchPath none url = normalizePath (standardizeUrl url) := by
  have decoded : baseUnescaper url none = url := by
    unfold baseUnescaper
    split
    · rfl
    · split
      · rfl
      · exact unescapeBufRaw_clean noPlus noPercent noNul
  rw [dispatchPath, decoded]

theorem plus_not_mem_dispatchPath (noPercent : '%' ∉ url) (noNul : '\x00' ∉ url) :
    '+' ∉ dispatchPath none url := by
  intro member
  rcases mem_normalizePath member with slash | inside
  · cases slash
  · have decoded := mem_standardizeUrl inside
    unfold baseUnescaper at decoded
    split at decoded
    · cases decoded
    · split at decoded
      · rename_i nul
        subst nul
        exact noNul List.mem_cons_self
      · exact plus_not_mem_unescapeBufRaw noPercent decoded

theorem dispatch_key_iff (noPercent : '%' ∉ path) (noNul : '\x00' ∉ path) :
    dispatchPath none (requestUrl path) = normalizeUrlComplete path ↔
      '+' ∉ path ∧ ∃ c : CanonicalPath, normalizeUrlComplete path = c.text := by
  have clean : ∀ {x : Char}, x ∉ path → x ≠ '/' → x ∉ requestUrl path := by
    intro x absent plain member
    rcases mem_requestUrl member with slash | inside
    · exact plain slash
    · exact absent inside
  have percent : '%' ∉ requestUrl path := clean noPercent (by decide)
  have nul : '\x00' ∉ requestUrl path := clean noNul (by decide)
  constructor
  · intro same
    refine ⟨fun plus => ?_, resolvePath (standardizeUrl (baseUnescaper (requestUrl path) none)), ?_⟩
    · have stored := mem_normalizeUrlComplete plus (by decide)
      rw [← same] at stored
      exact plus_not_mem_dispatchPath percent nul stored
    · rw [← same, dispatchPath, normalizePath_eq_text]
  · rintro ⟨noPlus, c, canonical⟩
    rw [dispatchPath_none_of_clean (clean noPlus (by decide)) percent nul]
    rcases requestUrl_cases path with same | slashed
    · rw [same, canonical, c.standardizeUrl_text, c.normalizePath_text]
    · rw [slashed, canonical, c.standardizeUrl_text_slash, c.normalizePath_text]

namespace Server

/-- A request for a registered literal path is dispatched to its resource when
    the path has no plus sign and, up to one trailing and the leading slash, is
    made of segments that are neither empty nor dots. -/
theorem literal_path_reachable_iff (rx : RegexEngine) (cfg : RouteConfig) (s : Server) (path : Str)
    (res : Nat) (method : HttpMethod) (regexOff : cfg.regexChecking = false)
    (noRoute : s.registry.table.NoRoute) (noBrace : '{' ∉ path) (noPercent : '%' ∉ path)
    (accepted :
      outcome ((RouteCall.registerPath path (some res)).mutate rx cfg) s.registry = .ok ()) :
    (s.call rx cfg (.registerPath path (some res))).routesTo rx method
        (dispatchPath none (requestUrl path)) (.resource res) ↔
      '+' ∉ path ∧ ∃ c : CanonicalPath, normalizeUrlComplete path = c.text := by
  obtain ⟨id, idx, t, valid, parsed, -, -⟩ := registerImpl_ok accepted
  obtain ⟨-, noNul⟩ := validateRegisterInputs_ok valid
  obtain ⟨complete, compiled, pars⟩ := HttpEndpoint.make_ok parsed
  have plain : idx.urlPars = [] := by
    refine pars.mpr fun seg listed => ?_
    have field : seg ∈ Fields.fields '/' path := (List.mem_filter.mp listed).1
    have head : seg.head? ≠ some '{' := fun brace =>
      noBrace (Fields.mem_of_mem_fields field (List.mem_of_mem_head? brace))
    simp [isWildcardSegment, head]
  have tier : classifyRouteTier rx idx = .ok .exact := by
    simp [classifyRouteTier, plain, compiled, regexOff]
  have text : dispatchPath none (requestUrl path) =
      (resolvePath (standardizeUrl (baseUnescaper (requestUrl path) none))).text :=
    normalizePath_eq_text _
  rw [← dispatch_key_iff noPercent noNul, text, routesTo_sole noRoute accepted parsed plain, tier,
    complete]
  simp

theorem clean_path_reachable :
    (Server.call literalEngine ⟨false, false⟩ (fresh 4 (by decide))
        (.registerPath "a/b/".toList (some 3))).routesTo literalEngine .get
      (dispatchPath none (requestUrl "a/b/".toList)) (.resource 3) :=
  (literal_path_reachable_iff literalEngine ⟨false, false⟩ (fresh 4 (by decide)) "a/b/".toList 3
    .get rfl RouteTable.noRoute_empty (by decide) (by decide) (by decide)).mpr
    ⟨by decide, ⟨["a".toList, "b".toList], by decide⟩, by decide⟩

def RegisteredInVain (s : Server) (path : Str) : Prop :=
  outcome ((RouteCall.registerPath path (some 3)).mutate literalEngine ⟨false, false⟩) s.registry =
      .ok () ∧
    ¬ (s.call literalEngine ⟨false, false⟩ (.registerPath path (some 3))).routesTo literalEngine
      .get (dispatchPath none (requestUrl path)) (.resource 3)

/-- A plus sign is decoded, a slash run and a dot segment are normalised away, on
    the request's side only. -/
theorem unclean_paths_unreachable :
    RegisteredInVain (fresh 4 (by decide)) "/a+b".toList ∧
      RegisteredInVain (fresh 4 (by decide)) "/a//b".toList ∧
      RegisteredInVain (fresh 4 (by decide)) "/a/./b".toList := by
  unfold RegisteredInVain
  decide

end Server

namespace Server

/-- A pattern without parameters answers the requests that match it, unless it
    matches its own text; then it answers that text only. -/
theorem regex_route_language (rx : RegexEngine) (cfg : RouteConfig) (s : Server) (path : Str)
    (res : Nat) (regexOn : cfg.regexChecking = true) (noRoute : s.registry.table.NoRoute)
    (noParameter : ∀ seg ∈ tokenizeUrl path, seg.head? ≠ some '{')
    (accepted :
      outcome ((RouteCall.registerPath path (some res)).mutate rx cfg) s.registry = .ok ()) :
    ∃ idx, HttpEndpoint.make rx path false true true = .ok idx ∧
      ∀ (method : HttpMethod) (c : CanonicalPath),
        (s.call rx cfg (.registerPath path (some res))).routesTo rx method c.text (.resource res) ↔
          if rx.regexMatch idx.urlComplete idx.urlNormalized then c.text = idx.urlComplete
          else rx.regexMatch c.text idx.urlNormalized = true := by
  obtain ⟨id, idx, t, valid, parsed, placed, -⟩ := registerImpl_ok accepted
  obtain ⟨-, compiled, pars⟩ := HttpEndpoint.make_ok parsed
  have plain : idx.urlPars = [] :=
    pars.mpr fun seg listed => by simp [isWildcardSegment, noParameter seg listed]
  refine ⟨idx, regexOn ▸ parsed, fun method c => ?_⟩
  rw [routesTo_sole noRoute accepted parsed plain]
  have compiles : rx.compiles idx.urlNormalized = true := by
    by_contra fails
    have tier : classifyRouteTier rx idx = .error (.invalidRoutePattern idx.urlNormalized []) := by
      simp [classifyRouteTier, plain, compiled, regexOn, fails]
    cases placed with
    | trie stored => simp [plain] at stored
    | exactly single found free => simp [tier] at found
    | regex re single found free => simp [tier] at found
  by_cases self : rx.regexMatch idx.urlComplete idx.urlNormalized = true
  · have tier : classifyRouteTier rx idx = .ok .exact := by
      simp [classifyRouteTier, plain, compiled, regexOn, compiles, self]
    simp [tier, self]
  · have tier : classifyRouteTier rx idx = .ok (.regex idx.urlNormalized) := by
      simp [classifyRouteTier, plain, compiled, regexOn, compiles, self]
    simp [tier, self]

/-- Anchored patterns of single characters: a dot stands for any one, `[0-9]`
    for a digit and every other character for itself. -/
def charMatch : Str → Str → Bool
  | ['$'], [] => true
  | '.' :: re, _ :: s => charMatch re s
  | '[' :: '0' :: '-' :: '9' :: ']' :: re, c :: s => c.isDigit && charMatch re s
  | d :: re, c :: s => d = c && charMatch re s
  | _, _ => false

def charEngine : RegexEngine := ⟨fun _ => true, fun s re => charMatch (re.drop 1) s⟩

theorem digit_route_language :
    ∃ idx, HttpEndpoint.make charEngine "/a[0-9]".toList false true true = .ok idx ∧
      ∀ (method : HttpMethod) (c : CanonicalPath),
        (Server.call charEngine ⟨false, true⟩ (fresh 4 (by decide))
            (.registerPath "/a[0-9]".toList (some 3))).routesTo charEngine method c.text
              (.resource 3) ↔
          if charEngine.regexMatch idx.urlComplete idx.urlNormalized then c.text = idx.urlComplete
          else charEngine.regexMatch c.text idx.urlNormalized = true :=
  regex_route_language charEngine ⟨false, true⟩ (fresh 4 (by decide)) "/a[0-9]".toList 3 rfl
    RouteTable.noRoute_empty (by decide) (by decide)

/-- The pattern `/a.c` matches `/abc` and does not answer it. -/
theorem dot_route_answers_own_text_only :
    outcome ((RouteCall.registerPath "/a.c".toList (some 3)).mutate charEngine ⟨false, true⟩)
        Registry.empty = .ok () ∧
      charEngine.regexMatch "/abc".toList "^/a.c$".toList = true ∧
      (HttpEndpoint.make charEngine "/a.c".toList false true true).map (·.urlNormalized) =
        .ok "^/a.c$".toList ∧
      ¬ (Server.call charEngine ⟨false, true⟩ (fresh 4 (by decide))
        (.registerPath "/a.c".toList (some 3))).routesTo charEngine .get "/abc".toList
          (.resource 3) := by
  decide

end Server
end HttpServer
