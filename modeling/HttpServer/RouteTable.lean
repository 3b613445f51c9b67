import HttpServer.Lib.Effect
import HttpServer.Lib.Lru
import HttpServer.HttpEndpoint

/-!
The three-tier route table, its LRU cache and `lookup_v2`. The lookup is cut
at its lock boundaries into the exact probe, the cache probe, the walk of the
trie and the regex list, and the cache insert. `coldLookup` is the answer the
table alone gives.
-/
namespace HttpServer
open Effect LruCache

/-- The object a route entry points to: a user's `http_resource`, or the
    `lambda_resource` shim behind an `on_*`/`route` registration. -/
inductive Handler where
  | resource (id : Nat)
  | lambda (id : Nat)
  deriving DecidableEq, Repr

structure RouteEntry where
  methods : MethodSet
  handler : Handler
  isPrefix : Bool
  deriving DecidableEq, Repr

structure RegexRoute where
  urlComplete : Str
  compiledRe : Str
  entry : RouteEntry
  deriving DecidableEq, Repr

structure RouteTable where
  exactRoutes : List (Str × RouteEntry)
  paramAndPrefixRoutes : TrieNode RouteEntry
  regexRoutes : List RegexRoute

def RouteTable.empty : RouteTable := ⟨[], TrieNode.empty, []⟩

abbrev Captures := List (Str × Str)

structure CacheKey where
  method : HttpMethod
  path : Str
  deriving DecidableEq, Repr

structure CacheValue where
  entry : RouteEntry
  capturedParams : Captures
  deriving DecidableEq, Repr

/-- `find` and `find_by_view` probe the same bucket with the same hash, so both
    are the one probe of the map. -/
abbrev RouteCache := Lru CacheKey CacheValue

inductive TierHit where
  | exact | cache | radix | regex
  deriving DecidableEq, Repr

structure LookupResult where
  tier : TierHit
  entry : RouteEntry
  capturedParams : Captures
  deriving DecidableEq, Repr

namespace RouteTable

def probeExact (t : RouteTable) (lookupPath : Str) : Option RouteEntry :=
  t.exactRoutes.lookup lookupPath

def walkTiers (rx : RegexEngine) (t : RouteTable) (lookupPath : Str) : Option LookupResult :=
  match t.paramAndPrefixRoutes.find rx lookupPath with
  | some rm => some ⟨.radix, rm.entry, rm.captures⟩
  | none =>
    match t.regexRoutes.find? fun rr => rx.regexMatch lookupPath rr.compiledRe with
    | some rr => some ⟨.regex, rr.entry, []⟩
    | none => none

def answer (r : LookupResult) : RouteEntry × Captures := (r.entry, r.capturedParams)

/-- The exact tier, then the trie, then the regex list, with no cache. -/
def coldLookup (rx : RegexEngine) (t : RouteTable) (path : Str) : Option (RouteEntry × Captures) :=
  let lookupPath := canonicalizeLookupPath path
  match t.probeExact lookupPath with
  | some entry => some (entry, [])
  | none => (t.walkTiers rx lookupPath).map answer

def lookupV2 (rx : RegexEngine) (t : RouteTable) (cache : RouteCache) (method : HttpMethod)
    (path : Str) : RouteCache × Option LookupResult :=
  let lookupPath := canonicalizeLookupPath path
  match t.probeExact lookupPath with
  | some entry => (cache, some ⟨.exact, entry, []⟩)
  | none =>
    let key : CacheKey := ⟨method, lookupPath⟩
    match cache.find key with
    | (cache, some cached) => (cache, some ⟨.cache, cached.entry, cached.capturedParams⟩)
    | (cache, none) =>
      match t.walkTiers rx lookupPath with
      | some result => (cache.insert key ⟨result.entry, result.capturedParams⟩, some result)
      | none => (cache, none)

/-- `find_v2_entry_by_path_`: the entry registered at an endpoint's own key. -/
def findV2EntryByPath (rx : RegexEngine) (t : RouteTable) (idx : HttpEndpoint) :
    Option RouteEntry :=
  let key := idx.urlComplete
  if idx.urlPars ≠ [] then
    match t.paramAndPrefixRoutes.find rx key with
    | some rm => if rm.isPrefixMatch then none else some rm.entry
    | none => none
  else
    match t.exactRoutes.lookup key with
    | some entry => some entry
    | none =>
      if idx.regCompiled then
        (t.regexRoutes.find? fun rr => rr.urlComplete = key).map (·.entry)
      else none

end RouteTable

abbrev TableM := EStateM RegistrationError RouteTable

def rejectTerminusCollision (key : Str) (wantIsPrefix : Bool) : TableM Unit := do
  let t ← get
  let collision :=
    if wantIsPrefix then
      (t.exactRoutes.lookup key).isSome || t.paramAndPrefixRoutes.hasTerminusAt key false
    else t.paramAndPrefixRoutes.hasTerminusAt key true
  if collision then throw (.terminusCollision key wantIsPrefix)

/-- `segment_trie::insert` on the table's trie; what it created stays behind
    when the constraint of a new wildcard does not compile. -/
def insertParamPrefix (rx : RegexEngine) (key : Str) (entry : RouteEntry) (isPrefix : Bool) :
    TableM Unit := do
  let t ← get
  let (trie, thrown) := t.paramAndPrefixRoutes.insert rx key entry isPrefix
  set { t with paramAndPrefixRoutes := trie }
  match thrown with
  | some source => throw (.invalidRegex source)
  | none => pure ()

def emplaceExact (key : Str) (entry : RouteEntry) : TableM Unit :=
  modify fun t =>
    if (t.exactRoutes.lookup key).isSome then t
    else { t with exactRoutes := t.exactRoutes ++ [(key, entry)] }

def pushRegex (rr : RegexRoute) : TableM Unit :=
  modify fun t => { t with regexRoutes := t.regexRoutes ++ [rr] }

def upsertV2RadixRoute (rx : RegexEngine) (key : Str) (methods : MethodSet) (shim : Handler) :
    TableM Unit := do
  rejectTerminusCollision key false
  let t ← get
  let merged : MethodSet :=
    match t.paramAndPrefixRoutes.find rx key with
    | some existing =>
      if existing.isPrefixMatch then .noMethods else existing.entry.methods
    | none => .noMethods
  insertParamPrefix rx key ⟨merged.union methods, shim, false⟩ false

/-- `insert_fresh_v2_entry`. Its radix branch is unreachable in the source;
    here it leaves the table alone. -/
def insertFreshV2Entry (rx : RegexEngine) (idx : HttpEndpoint) (methods : MethodSet)
    (shim : Handler) : TableM Unit := do
  match classifyRouteTier rx idx with
  | .error e => throw e
  | .ok .radix => pure ()
  | .ok .exact => do
    rejectTerminusCollision idx.urlComplete false
    emplaceExact idx.urlComplete ⟨methods, shim, false⟩
  | .ok (.regex re) => pushRegex ⟨idx.urlComplete, re, ⟨methods, shim, false⟩⟩

def mergeInto (methods : MethodSet) (shim : Handler) (target : RouteEntry) : RouteEntry :=
  ⟨target.methods.union methods, shim, false⟩

def updateFirst (hit : RegexRoute → Bool) (f : RegexRoute → RegexRoute) :
    List RegexRoute → List RegexRoute
  | [] => []
  | rr :: rest => if hit rr then f rr :: rest else rr :: updateFirst hit f rest

def updateExistingV2Entry (key : Str) (methods : MethodSet) (shim : Handler) : TableM Unit :=
  modify fun t =>
    if (t.exactRoutes.lookup key).isSome then
      { t with
        exactRoutes := t.exactRoutes.map fun kv =>
          if kv.1 = key then (kv.1, mergeInto methods shim kv.2) else kv }
    else
      { t with
        regexRoutes := updateFirst (fun rr => rr.entry.handler = shim)
          (fun rr => { rr with entry := mergeInto methods shim rr.entry }) t.regexRoutes }

def upsertV2TableEntryLocked (rx : RegexEngine) (idx : HttpEndpoint) (methods : MethodSet)
    (shim : Handler) (fresh : Bool) : TableM Unit :=
  if idx.urlPars ≠ [] then upsertV2RadixRoute rx idx.urlComplete methods shim
  else if fresh then insertFreshV2Entry rx idx methods shim
  else updateExistingV2Entry idx.urlComplete methods shim

def rejectDuplicateV2Entry (rx : RegexEngine) (idx : HttpEndpoint) (family : Bool) :
    TableM Unit := do
  let t ← get
  let key := idx.urlComplete
  if family then
    if t.paramAndPrefixRoutes.hasTerminusAt key true then throw (.duplicateRegistration key)
  else
    match classifyRouteTier rx idx with
    | .error e => throw e
    | .ok .exact => if (t.exactRoutes.lookup key).isSome then throw (.duplicateRegistration key)
    | .ok .radix =>
      if t.paramAndPrefixRoutes.hasTerminusAt key false then throw (.duplicateRegistration key)
    | .ok (.regex _) =>
      if t.regexRoutes.any fun rr => rr.urlComplete = key then throw (.duplicateRegistration key)

def placeV2Route (rx : RegexEngine) (idx : HttpEndpoint) (entry : RouteEntry) (family : Bool) :
    TableM Unit :=
  if family then insertParamPrefix rx idx.urlComplete entry true
  else
    match classifyRouteTier rx idx with
    | .error e => throw e
    | .ok .radix => insertParamPrefix rx idx.urlComplete entry false
    | .ok (.regex re) => pushRegex ⟨idx.urlComplete, re, entry⟩
    | .ok .exact => emplaceExact idx.urlComplete entry

def registerV2Route (rx : RegexEngine) (idx : HttpEndpoint) (res : Nat) (family : Bool) :
    TableM Unit := do
  rejectTerminusCollision idx.urlComplete family
  rejectDuplicateV2Entry rx idx family
  placeV2Route rx idx ⟨.setAll, .resource res, family⟩ family

def eraseExactAndRegexLocked (key : Str) : TableM Unit :=
  modify fun t =>
    { t with
      exactRoutes := t.exactRoutes.filter fun kv => kv.1 ≠ key
      regexRoutes := t.regexRoutes.filter fun rr => rr.urlComplete ≠ key }

def removeParamPrefixLocked (key : Str) (isPrefix : Bool) : TableM Unit :=
  modify fun t => { t with paramAndPrefixRoutes := t.paramAndPrefixRoutes.remove key isPrefix }

namespace RouteTable
variable {rx : RegexEngine} {t : RouteTable} {cache : RouteCache}

def Fresh (rx : RegexEngine) (t : RouteTable) (k : CacheKey) (v : CacheValue) : Prop :=
  (t.walkTiers rx k.path).map answer = some (v.entry, v.capturedParams)

theorem lookupV2_cases (rx : RegexEngine) (t : RouteTable) (cache : RouteCache)
    (method : HttpMethod) (path : Str) :
    let p := canonicalizeLookupPath path
    let probed := cache.find ⟨method, p⟩
    (∃ entry, t.probeExact p = some entry ∧
        t.lookupV2 rx cache method path = (cache, some ⟨.exact, entry, []⟩)) ∨
    (t.probeExact p = none ∧ ∃ v, probed.2 = some v ∧
        t.lookupV2 rx cache method path = (probed.1, some ⟨.cache, v.entry, v.capturedParams⟩)) ∨
    (t.probeExact p = none ∧ ∃ r, t.walkTiers rx p = some r ∧
        t.lookupV2 rx cache method path =
          (probed.1.insert ⟨method, p⟩ ⟨r.entry, r.capturedParams⟩, some r)) ∨
    (t.probeExact p = none ∧ t.walkTiers rx p = none ∧
        t.lookupV2 rx cache method path = (probed.1, none)) := by
  intro p probed
  cases exact_tier : t.probeExact p with
  | some entry => exact Or.inl ⟨entry, rfl, by simp [lookupV2, p, exact_tier]⟩
  | none =>
    cases hit : probed.2 with
    | some v =>
      refine Or.inr (Or.inl ⟨rfl, v, rfl, ?_⟩)
      have probe : cache.find ⟨method, p⟩ = (probed.1, some v) := Prod.ext rfl hit
      simp [lookupV2, p, exact_tier, probe]
    | none =>
      have probe : cache.find ⟨method, p⟩ = (probed.1, none) := Prod.ext rfl hit
      cases walk : t.walkTiers rx p with
      | some r =>
        exact Or.inr (Or.inr (Or.inl ⟨rfl, r, rfl, by simp [lookupV2, p, exact_tier, probe, walk]⟩))
      | none =>
        exact Or.inr (Or.inr (Or.inr ⟨rfl, rfl, by simp [lookupV2, p, exact_tier, probe, walk]⟩))

theorem lookupV2_answer (fresh : cache.Holds (Fresh rx t)) (method : HttpMethod) (path : Str) :
    (t.lookupV2 rx cache method path).2.map answer = t.coldLookup rx path := by
  unfold coldLookup
  rcases lookupV2_cases rx t cache method path with
    ⟨entry, hit, result⟩ | ⟨miss, v, hit, result⟩ | ⟨miss, r, walk, result⟩ | ⟨miss, walk, result⟩
  · simp [result, hit, answer]
  · have stored := Lru.find_sound fresh hit
    simp only [Fresh] at stored
    simp [result, miss, stored, answer]
  · simp [result, miss, walk]
  · simp [result, miss, walk]

theorem lookupV2_fresh (fresh : cache.Holds (Fresh rx t)) (method : HttpMethod) (path : Str) :
    (t.lookupV2 rx cache method path).1.Holds (Fresh rx t) := by
  have probed := Lru.holds_find (k := (⟨method, canonicalizeLookupPath path⟩ : CacheKey)) fresh
  rcases lookupV2_cases rx t cache method path with
    ⟨entry, -, result⟩ | ⟨-, v, -, result⟩ | ⟨-, r, walk, result⟩ | ⟨-, -, result⟩
  · rw [result]
    exact fresh
  · rw [result]
    exact probed
  · rw [result]
    apply Lru.holds_insert probed
    simp [Fresh, walk, answer]
  · rw [result]
    exact probed

end RouteTable

-- Registrations check before they write: apart from a constraint that fails to compile
-- inside the trie, a failed one leaves the table as it was.
def RegistrationError.onRegex : RegistrationError → Bool
  | .invalidRegex _ => true
  | _ => false

theorem steps_rejectTerminusCollision (key : Str) (wantIsPrefix : Bool) :
    Steps Eq (rejectTerminusCollision key wantIsPrefix) := by
  refine steps_bind steps_get fun t => ?_
  dsimp only
  repeat' split
  all_goals first | exact steps_throw _ | exact steps_pure _

variable (rx : RegexEngine) (idx : HttpEndpoint)

theorem steps_rejectDuplicateV2Entry (family : Bool) :
    Steps Eq (rejectDuplicateV2Entry rx idx family) := by
  refine steps_bind steps_get fun t => ?_
  dsimp only
  repeat' split
  all_goals first | exact steps_throw _ | exact steps_pure _

theorem failsClean_insertParamPrefix (key : Str) (entry : RouteEntry) (isPrefix : Bool) :
    FailsClean Eq (·.onRegex) (insertParamPrefix rx key entry isPrefix) := by
  intro t e failed
  left
  unfold insertParamPrefix at failed
  rw [outcome_get_bind] at failed
  dsimp only at failed
  rw [outcome_set_bind] at failed
  cases h : (t.paramAndPrefixRoutes.insert rx key entry isPrefix).2 with
  | none =>
    rw [h] at failed
    cases failed
  | some source =>
    rw [h] at failed
    cases failed
    rfl

theorem failsClean_modify (f : RouteTable → RouteTable) :
    FailsClean Eq (·.onRegex) (modify f : TableM Unit) := by
  intro t e failed
  cases failed

theorem failsClean_placeV2Route (entry : RouteEntry) (family : Bool) :
    FailsClean Eq (·.onRegex) (placeV2Route rx idx entry family) := by
  unfold placeV2Route
  split
  · exact failsClean_insertParamPrefix rx _ entry true
  · split
    · exact failsClean_of_steps (steps_throw _)
    · exact failsClean_insertParamPrefix rx _ entry false
    · exact failsClean_modify _
    · exact failsClean_modify _

theorem failsClean_registerV2Route (res : Nat) (family : Bool) :
    FailsClean Eq (·.onRegex) (registerV2Route rx idx res family) := by
  apply failsClean_bind (steps_rejectTerminusCollision _ _)
  intro _
  apply failsClean_bind (steps_rejectDuplicateV2Entry rx idx family)
  intro _
  exact failsClean_placeV2Route rx idx _ family

theorem failsClean_upsertV2RadixRoute (key : Str) (methods : MethodSet) (shim : Handler) :
    FailsClean Eq (·.onRegex) (upsertV2RadixRoute rx key methods shim) := by
  apply failsClean_bind (steps_rejectTerminusCollision _ _)
  intro _
  apply failsClean_bind steps_get
  intro t
  exact failsClean_insertParamPrefix rx _ _ _

theorem failsClean_insertFreshV2Entry (methods : MethodSet) (shim : Handler) :
    FailsClean Eq (·.onRegex) (insertFreshV2Entry rx idx methods shim) := by
  unfold insertFreshV2Entry
  split
  · exact failsClean_of_steps (steps_throw _)
  · exact failsClean_of_steps (steps_pure _)
  · exact failsClean_bind (steps_rejectTerminusCollision _ _) fun _ => failsClean_modify _
  · exact failsClean_modify _

theorem failsClean_upsertV2TableEntryLocked (methods : MethodSet) (shim : Handler) (fresh : Bool) :
    FailsClean Eq (·.onRegex) (upsertV2TableEntryLocked rx idx methods shim fresh) := by
  unfold upsertV2TableEntryLocked
  split
  · exact failsClean_upsertV2RadixRoute rx _ methods shim
  · split
    · exact failsClean_insertFreshV2Entry rx idx methods shim
    · exact failsClean_modify _

end HttpServer
