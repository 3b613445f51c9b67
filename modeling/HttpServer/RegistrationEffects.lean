import HttpServer.TriePatterns
import HttpServer.Registration

/-!
What a registration call that returned has checked and written. The table keeps
a pattern in its trie when the registration is a prefix or has a parameter, and
in the exact map or the regex list otherwise.
-/
namespace HttpServer
open Effect

/-- The test behind `reject_terminus_collision`. -/
def RouteTable.collides (t : RouteTable) (key : Str) (wantIsPrefix : Bool) : Bool :=
  if wantIsPrefix then
    (t.exactRoutes.lookup key).isSome || t.paramAndPrefixRoutes.hasTerminusAt key false
  else t.paramAndPrefixRoutes.hasTerminusAt key true

def RouteTable.insertTrie (rx : RegexEngine) (t : RouteTable) (segs : List Str)
    (entry : RouteEntry) (isPrefix : Bool) : RouteTable :=
  { t with
    paramAndPrefixRoutes := (t.paramAndPrefixRoutes.insertSegments rx entry isPrefix segs).1 }

def RouteTable.removeTrie (t : RouteTable) (segs : List Str) (isPrefix : Bool) : RouteTable :=
  { t with paramAndPrefixRoutes := t.paramAndPrefixRoutes.removeSegments isPrefix segs }

def RouteTable.eraseKey (t : RouteTable) (key : Str) : RouteTable :=
  { t with
    exactRoutes := t.exactRoutes.filter fun kv => kv.1 ≠ key
    regexRoutes := t.regexRoutes.filter fun rr => rr.urlComplete ≠ key }

section
variable (rx : RegexEngine) (t : RouteTable)

theorem outcome_rejectTerminusCollision (key : Str) (wantIsPrefix : Bool) :
    outcome (rejectTerminusCollision key wantIsPrefix) t =
      if t.collides key wantIsPrefix then .error (.terminusCollision key wantIsPrefix)
      else .ok () := by
  unfold rejectTerminusCollision
  rw [outcome_get_bind]
  change outcome (if t.collides key wantIsPrefix then _ else _) t = _
  split
  · rfl
  · rfl

theorem rejectTerminusCollision_ok {t : RouteTable} {key : Str} {wantIsPrefix : Bool}
    (ok : outcome (rejectTerminusCollision key wantIsPrefix) t = .ok ()) :
    t.collides key wantIsPrefix = false := by
  rw [outcome_rejectTerminusCollision] at ok
  split at ok
  · cases ok
  · rename_i free
    simpa using free

theorem rejectDuplicateV2Entry_ok {rx : RegexEngine} {t : RouteTable} {idx : HttpEndpoint}
    {family : Bool} (ok : outcome (rejectDuplicateV2Entry rx idx family) t = .ok ()) :
    (family = true ∧ t.paramAndPrefixRoutes.hasTerminusAt idx.urlComplete true = false) ∨
      (family = false ∧
        (classifyRouteTier rx idx = .ok .exact ∧ t.exactRoutes.lookup idx.urlComplete = none ∨
          classifyRouteTier rx idx = .ok .radix ∧
            t.paramAndPrefixRoutes.hasTerminusAt idx.urlComplete false = false ∨
          ∃ re, classifyRouteTier rx idx = .ok (.regex re) ∧
            ∀ rr ∈ t.regexRoutes, rr.urlComplete ≠ idx.urlComplete)) := by
  unfold rejectDuplicateV2Entry at ok
  rw [outcome_get_bind] at ok
  dsimp only at ok
  split at ok
  · rename_i isFamily
    split at ok
    · cases ok
    · rename_i free
      exact Or.inl ⟨isFamily, by simpa using free⟩
  · rename_i single
    refine Or.inr ⟨by simpa using single, ?_⟩
    split at ok
    · cases ok
    · rename_i tier
      split at ok
      · cases ok
      · rename_i free
        exact Or.inl ⟨tier, Option.not_isSome_iff_eq_none.mp free⟩
    · rename_i tier
      split at ok
      · cases ok
      · rename_i free
        exact Or.inr (Or.inl ⟨tier, by simpa using free⟩)
    · rename_i re tier
      split at ok
      · cases ok
      · rename_i free
        exact Or.inr (Or.inr ⟨re, tier, by simpa using free⟩)

theorem outcome_insertParamPrefix (key : Str) (entry : RouteEntry) (isPrefix : Bool) :
    outcome (insertParamPrefix rx key entry isPrefix) t =
      (t.paramAndPrefixRoutes.firstBad rx (tokenizeUrl key)).elim (.ok ())
        fun source => .error (.invalidRegex source) := by
  have thrown := TrieNode.insertSegments_thrown rx entry isPrefix t.paramAndPrefixRoutes
    (tokenizeUrl key)
  unfold insertParamPrefix
  rw [outcome_get_bind]
  dsimp only
  rw [outcome_set_bind, TrieNode.insert, thrown]
  cases t.paramAndPrefixRoutes.firstBad rx (tokenizeUrl key) with
  | none => rfl
  | some source => rfl

theorem after_insertParamPrefix (key : Str) (entry : RouteEntry) (isPrefix : Bool) :
    after (insertParamPrefix rx key entry isPrefix) t =
      t.insertTrie rx (tokenizeUrl key) entry isPrefix := by
  unfold insertParamPrefix
  rw [after_get_bind]
  dsimp only
  rw [after_set_bind]
  split
  · rfl
  · rfl

theorem insertParamPrefix_ok {rx : RegexEngine} {t : RouteTable} {key : Str} {entry : RouteEntry}
    {isPrefix : Bool} (ok : outcome (insertParamPrefix rx key entry isPrefix) t = .ok ()) :
    t.paramAndPrefixRoutes.firstBad rx (tokenizeUrl key) = none := by
  rw [outcome_insertParamPrefix] at ok
  cases bad : t.paramAndPrefixRoutes.firstBad rx (tokenizeUrl key) with
  | none => rfl
  | some source =>
    rw [bad] at ok
    cases ok

end

variable {rx : RegexEngine} {idx : HttpEndpoint} {path : Str} {family : Bool} {r : Registry}
  {methods : MethodSet} {cfg : RouteConfig} {res : Option Nat}

theorem classifyRouteTier_radix (pars : idx.urlPars ≠ []) :
    classifyRouteTier rx idx = .ok .radix := by
  simp [classifyRouteTier, pars]

theorem classifyRouteTier_regex {re : Str} (tier : classifyRouteTier rx idx = .ok (.regex re)) :
    idx.regCompiled = true ∧ idx.urlNormalized = re := by
  unfold classifyRouteTier at tier
  split at tier
  · cases tier
  · split at tier
    · rename_i compiled
      split at tier
      · cases tier
      · split at tier
        · cases tier
        · cases tier
          exact ⟨compiled, rfl⟩
    · cases tier

theorem classifyRouteTier_plain (plain : idx.urlPars = []) :
    classifyRouteTier rx idx ≠ .ok .radix := by
  unfold classifyRouteTier
  rw [if_neg (by simp [plain])]
  split
  · split
    · simp
    · split
      · simp
      · simp
  · simp

inductive Placed (rx : RegexEngine) (t : RouteTable) (idx : HttpEndpoint) (entry : RouteEntry)
    (family : Bool) : RouteTable → Prop
  | trie (stored : family = true ∨ idx.urlPars ≠ [])
      (compiles : t.paramAndPrefixRoutes.firstBad rx (tokenizeUrl idx.urlComplete) = none)
      (free : ∀ kind, t.paramAndPrefixRoutes.hasTerminusAt idx.urlComplete kind = false) :
      Placed rx t idx entry family (t.insertTrie rx (tokenizeUrl idx.urlComplete) entry family)
  | exactly (single : family = false) (tier : classifyRouteTier rx idx = .ok .exact)
      (free : t.exactRoutes.lookup idx.urlComplete = none) :
      Placed rx t idx entry family
        { t with exactRoutes := t.exactRoutes ++ [(idx.urlComplete, entry)] }
  | regex (re : Str) (single : family = false) (tier : classifyRouteTier rx idx = .ok (.regex re))
      (free : ∀ rr ∈ t.regexRoutes, rr.urlComplete ≠ idx.urlComplete) :
      Placed rx t idx entry family
        { t with regexRoutes := t.regexRoutes ++ [⟨idx.urlComplete, re, entry⟩] }

variable {t : RouteTable} {id : Nat} {fresh : Bool} {handler : Option Nat} {c : RouteCall}

theorem registerV2Route_ok {res : Nat} (ok : outcome (registerV2Route rx idx res family) t = .ok ()) :
    Placed rx t idx ⟨.setAll, .resource res, family⟩ family
      (after (registerV2Route rx idx res family) t) := by
  unfold registerV2Route at ok ⊢
  obtain ⟨⟨⟩, noCollision, ok, state⟩ := bind_ok t ok
  rw [state]
  rw [← steps_rejectTerminusCollision idx.urlComplete family t] at ok ⊢
  obtain ⟨⟨⟩, noDuplicate, ok, state⟩ := bind_ok t ok
  rw [state]
  rw [← steps_rejectDuplicateV2Entry rx idx family t] at ok ⊢
  have apart := rejectTerminusCollision_ok noCollision
  unfold placeV2Route at ok ⊢
  rcases rejectDuplicateV2Entry_ok noDuplicate with ⟨rfl, free⟩ | ⟨rfl, exactTier | radix | regex⟩
  · -- a prefix: the collision check looked at the exact terminus
    simp only [if_true] at ok ⊢
    rw [after_insertParamPrefix]
    refine Placed.trie (Or.inl rfl) (insertParamPrefix_ok ok) fun kind => ?_
    cases kind with
    | true => exact free
    | false => exact (Bool.or_eq_false_iff.mp apart).2
  · obtain ⟨tier, free⟩ := exactTier
    simp only [tier, Bool.false_eq_true, if_false]
    have state : after (emplaceExact idx.urlComplete ⟨.setAll, .resource res, false⟩) t =
        { t with exactRoutes :=
          t.exactRoutes ++ [(idx.urlComplete, ⟨.setAll, .resource res, false⟩)] } := by
      change (if _ then _ else _) = _
      rw [free]
      rfl
    rw [state]
    exact Placed.exactly rfl tier free
  · obtain ⟨tier, free⟩ := radix
    simp only [tier, Bool.false_eq_true, if_false] at ok ⊢
    rw [after_insertParamPrefix]
    refine Placed.trie (Or.inr ?_) (insertParamPrefix_ok ok) fun kind => ?_
    · intro plain
      exact classifyRouteTier_plain plain tier
    · cases kind with
      | true => simpa [RouteTable.collides] using apart
      | false => exact free
  · obtain ⟨re, tier, free⟩ := regex
    simp only [tier, Bool.false_eq_true, if_false]
    exact Placed.regex re rfl tier free

theorem outcome_onTable (x : TableM Unit) (r : Registry) :
    outcome (onTable x) r = outcome x r.table := by
  unfold outcome onTable
  cases x r.table with
  | ok a t => rfl
  | error e t => rfl

theorem after_onTable (x : TableM Unit) (r : Registry) :
    after (onTable x) r = { r with table := after x r.table } := by
  unfold after onTable
  cases x r.table with
  | ok a t => rfl
  | error e t => rfl

theorem check_bind_ok {α β : Type} {x : Except RegistrationError α} {f : α → RegistryM β} {b : β}
    (ok : outcome (check x >>= f) r = .ok b) :
    ∃ a, x = .ok a ∧ outcome (f a) r = .ok b ∧ after (check x >>= f) r = after (f a) r := by
  cases x with
  | error e => cases ok
  | ok a => exact ⟨a, rfl, ok, rfl⟩

theorem validateRegisterInputs_ok (ok : validateRegisterInputs cfg path res family = .ok id) :
    res = some id ∧ '\x00' ∉ path := by
  unfold validateRegisterInputs at ok
  cases res with
  | none => cases ok
  | some res =>
    dsimp only at ok
    split at ok
    · cases ok
    · split at ok
      · cases ok
      · rename_i clean
        cases ok
        exact ⟨rfl, clean⟩

theorem registerImpl_ok (ok : outcome (registerImpl rx cfg path res family) r = .ok ()) :
    ∃ id idx t, validateRegisterInputs cfg path res family = .ok id ∧
      HttpEndpoint.make rx path family true cfg.regexChecking = .ok idx ∧
      Placed rx r.table idx ⟨.setAll, .resource id, family⟩ family t ∧
      after (registerImpl rx cfg path res family) r = { r with table := t } := by
  unfold registerImpl at ok ⊢
  obtain ⟨id, valid, ok, state⟩ := check_bind_ok ok
  rw [state]
  obtain ⟨idx, parsed, ok, state⟩ := check_bind_ok ok
  rw [state, after_onTable]
  rw [outcome_onTable] at ok
  exact ⟨id, idx, _, valid, parsed, registerV2Route_ok ok, rfl⟩

def LambdaResource.fill (methods : MethodSet) (handler : Nat) (shim : LambdaResource) :
    LambdaResource :=
  (requestedMethods methods).foldl (fun shim m => shim.setSlot m handler) shim

/-- The methods an entry found by the pattern's own text passes on to the entry
    that is written. -/
def RouteTable.inherited (rx : RegexEngine) (t : RouteTable) (key : Str) : MethodSet :=
  match t.paramAndPrefixRoutes.find rx key with
  | some existing => if existing.isPrefixMatch then .noMethods else existing.entry.methods
  | none => .noMethods

inductive Upserted (rx : RegexEngine) (t : RouteTable) (idx : HttpEndpoint) (methods : MethodSet)
    (shim : Handler) (fresh : Bool) : RouteTable → Prop
  | trie (stored : idx.urlPars ≠ [])
      (compiles : t.paramAndPrefixRoutes.firstBad rx (tokenizeUrl idx.urlComplete) = none)
      (free : t.paramAndPrefixRoutes.hasTerminusAt idx.urlComplete true = false) :
      Upserted rx t idx methods shim fresh
        (t.insertTrie rx (tokenizeUrl idx.urlComplete)
          ⟨(t.inherited rx idx.urlComplete).union methods, shim, false⟩ false)
  | exactly (plain : idx.urlPars = []) (new : fresh = true)
      (tier : classifyRouteTier rx idx = .ok .exact)
      (free : t.paramAndPrefixRoutes.hasTerminusAt idx.urlComplete true = false) :
      Upserted rx t idx methods shim fresh
        (after (emplaceExact idx.urlComplete ⟨methods, shim, false⟩) t)
  | regex (re : Str) (plain : idx.urlPars = []) (new : fresh = true)
      (tier : classifyRouteTier rx idx = .ok (.regex re)) :
      Upserted rx t idx methods shim fresh
        { t with regexRoutes := t.regexRoutes ++ [⟨idx.urlComplete, re, ⟨methods, shim, false⟩⟩] }
  | update (plain : idx.urlPars = []) (old : fresh = false) :
      Upserted rx t idx methods shim fresh
        (after (updateExistingV2Entry idx.urlComplete methods shim) t)

theorem upsertV2TableEntryLocked_ok {shim : Handler}
    (ok : outcome (upsertV2TableEntryLocked rx idx methods shim fresh) t = .ok ()) :
    Upserted rx t idx methods shim fresh
      (after (upsertV2TableEntryLocked rx idx methods shim fresh) t) := by
  unfold upsertV2TableEntryLocked at ok ⊢
  by_cases pars : idx.urlPars ≠ []
  · rw [if_pos pars] at ok ⊢
    unfold upsertV2RadixRoute at ok ⊢
    obtain ⟨⟨⟩, noCollision, ok, state⟩ := bind_ok t ok
    rw [state]
    rw [← steps_rejectTerminusCollision idx.urlComplete false t] at ok ⊢
    rw [outcome_get_bind] at ok
    rw [after_get_bind]
    dsimp only at ok ⊢
    rw [after_insertParamPrefix]
    exact Upserted.trie pars (insertParamPrefix_ok ok) (rejectTerminusCollision_ok noCollision)
  · rw [if_neg pars] at ok ⊢
    have plain : idx.urlPars = [] := not_not.mp pars
    cases fresh with
    | false => exact Upserted.update plain rfl
    | true =>
      simp only [if_true] at ok ⊢
      unfold insertFreshV2Entry at ok ⊢
      cases tier : classifyRouteTier rx idx with
      | error e =>
        rw [tier] at ok
        cases ok
      | ok kind =>
        rw [tier] at ok
        cases kind with
        | radix => exact absurd tier (classifyRouteTier_plain plain)
        | regex re => exact Upserted.regex re plain rfl tier
        | exact =>
          dsimp only at ok ⊢
          obtain ⟨⟨⟩, noCollision, -, state⟩ := bind_ok t ok
          rw [state, ← steps_rejectTerminusCollision idx.urlComplete false t]
          exact Upserted.exactly plain rfl tier (rejectTerminusCollision_ok noCollision)

/-- The shim an `on_*` call fills: a new one behind the others, or the one the
    probe found with none of the requested slots taken. -/
inductive ShimChosen (rx : RegexEngine) (r : Registry) (idx : HttpEndpoint) (methods : MethodSet) :
    Nat → Bool → List LambdaResource → Prop
  | new (missing : r.table.findV2EntryByPath rx idx = none) :
      ShimChosen rx r idx methods r.shims.length true (r.shims ++ [LambdaResource.fresh])
  | existing (id : Nat) (entry : RouteEntry) (found : r.table.findV2EntryByPath rx idx = some entry)
      (lambda : entry.handler = .lambda id)
      (free : (requestedMethods methods).any (r.shims.getD id LambdaResource.fresh).hasSlot = false) :
      ShimChosen rx r idx methods id false r.shims

theorem ShimChosen.of_found {entry : RouteEntry} {shims : List LambdaResource}
    (chosen : ShimChosen rx r idx methods id fresh shims)
    (found : r.table.findV2EntryByPath rx idx = some entry) :
    entry.handler = .lambda id ∧
      (requestedMethods methods).any (r.shims.getD id LambdaResource.fresh).hasSlot = false := by
  cases chosen with
  | new missing => simp [found] at missing
  | existing _ entry' found' lambda free =>
    rw [found] at found'
    cases found'
    exact ⟨lambda, free⟩

theorem prepareOrCreateLambdaShim_cases (rx : RegexEngine) (idx : HttpEndpoint)
    (methods : MethodSet) (r : Registry) :
    (∃ id fresh shims, ShimChosen rx r idx methods id fresh shims ∧
        outcome (prepareOrCreateLambdaShim rx idx methods) r = .ok (id, fresh) ∧
        after (prepareOrCreateLambdaShim rx idx methods) r = { r with shims := shims }) ∨
      ((∀ id fresh shims, ¬ ShimChosen rx r idx methods id fresh shims) ∧
        (∃ e, outcome (prepareOrCreateLambdaShim rx idx methods) r = .error e) ∧
        after (prepareOrCreateLambdaShim rx idx methods) r = r) := by
  unfold prepareOrCreateLambdaShim
  rw [outcome_get_bind, after_get_bind]
  cases found : r.table.findV2EntryByPath rx idx with
  | none => exact Or.inl ⟨_, _, _, ShimChosen.new found, rfl, rfl⟩
  | some entry =>
    dsimp only
    cases kind : entry.handler with
    | resource res =>
      refine Or.inr ⟨fun id fresh shims chosen => ?_, ⟨_, rfl⟩, rfl⟩
      have owner := (chosen.of_found found).1
      rw [kind] at owner
      cases owner
    | lambda id =>
      dsimp only
      by_cases taken :
          (requestedMethods methods).any (r.shims.getD id LambdaResource.fresh).hasSlot = true
      · rw [if_pos taken]
        refine Or.inr ⟨fun id' fresh shims chosen => ?_, ⟨_, rfl⟩, rfl⟩
        obtain ⟨same, free⟩ := chosen.of_found found
        rw [kind] at same
        cases same
        rw [taken] at free
        cases free
      · rw [if_neg taken]
        exact Or.inl ⟨id, false, r.shims,
          ShimChosen.existing id entry found kind (by simpa using taken), rfl, rfl⟩

theorem onMethods_ok (ok : outcome (onMethods rx cfg methods path handler) r = .ok ()) :
    ∃ h idx id fresh shims t, validateOnMethodsInputs cfg methods path handler = .ok h ∧
      HttpEndpoint.make rx path false true cfg.regexChecking = .ok idx ∧
      ShimChosen rx r idx methods id fresh shims ∧
      Upserted rx r.table idx methods (.lambda id) fresh t ∧
      after (onMethods rx cfg methods path handler) r =
        ⟨t, shims.modify id (LambdaResource.fill methods h)⟩ := by
  unfold onMethods at ok ⊢
  obtain ⟨h, valid, ok, state⟩ := check_bind_ok ok
  rw [state]
  obtain ⟨idx, parsed, ok, state⟩ := check_bind_ok ok
  rw [state]
  obtain ⟨shim, prepared, ok, state⟩ := bind_ok r ok
  rcases prepareOrCreateLambdaShim_cases rx idx methods r with
    ⟨id, fresh, shims, chosen, result, prepares⟩ | ⟨-, ⟨e, refused⟩, -⟩
  swap
  · rw [refused] at prepared
    cases prepared
  rw [result] at prepared
  cases prepared
  rw [state, prepares]
  rw [prepares] at ok
  dsimp only at ok ⊢
  obtain ⟨⟨⟩, -, ok, state⟩ := bind_ok _ ok
  rw [state, after_onTable]
  rw [outcome_onTable] at ok
  exact ⟨h, idx, id, fresh, shims, _, valid, parsed, chosen, upsertV2TableEntryLocked_ok ok, rfl⟩

def RouteCall.onArguments : RouteCall → Option (MethodSet × Str × Option Nat)
  | .on forwarder path handler => some (MethodSet.noMethods.set forwarder.method, path, handler)
  | .routeMethod m path handler => some (MethodSet.noMethods.set m, path, handler)
  | .routeSet methods path handler => some (methods, path, handler)
  | _ => none

def RouteCall.registerArguments : RouteCall → Option (Str × Option Nat × Bool)
  | .registerPath path res => some (path, res, false)
  | .registerPrefix path res => some (path, res, true)
  | _ => none

theorem RouteCall.mutate_on (call : c.onArguments = some (methods, path, handler))
    (rx : RegexEngine) (cfg : RouteConfig) :
    (∃ e, c.mutate rx cfg = throw e ∧ methods.isEmpty = true) ∨
      c.mutate rx cfg = onMethods rx cfg methods path handler := by
  cases c with
  | on forwarder path' handler' =>
    cases call
    exact Or.inr rfl
  | routeSet methods' path' handler' =>
    cases call
    exact Or.inr rfl
  | routeMethod m path' handler' =>
    cases call
    by_cases sentinel : m = .count_
    · exact Or.inl ⟨.sentinelMethod, if_pos sentinel, by subst sentinel; decide⟩
    · exact Or.inr (if_neg sentinel)
  | _ => cases call

theorem RouteCall.mutate_register (call : c.registerArguments = some (path, res, family))
    (rx : RegexEngine) (cfg : RouteConfig) :
    c.mutate rx cfg = registerImpl rx cfg path res family := by
  cases c with
  | registerPath path' res' =>
    cases call
    rfl
  | registerPrefix path' res' =>
    cases call
    rfl
  | _ => cases call

def RouteCall.pattern (c : RouteCall) : Option (List Str × Bool) :=
  match c.registerArguments, c.onArguments with
  | some (path, _, family), _ =>
    if family || (tokenizeUrl path).any isWildcardSegment then some (tokenizeUrl path, family)
    else none
  | none, some (_, path, _) =>
    if (tokenizeUrl path).any isWildcardSegment then some (tokenizeUrl path, false) else none
  | none, none => none

def RouteCall.prune {T : Type} (c : RouteCall) (trie : TrieNode T) : TrieNode T :=
  match c with
  | .unregisterPath path =>
    if (tokenizeUrl path).any isWildcardSegment then trie.removeSegments false (tokenizeUrl path)
    else trie
  | .unregisterPrefix path => trie.removeSegments true (tokenizeUrl path)
  | .unregisterResource path =>
    (trie.removeSegments false (tokenizeUrl path)).removeSegments true (tokenizeUrl path)
  | _ => trie

theorem HttpEndpoint.make_segments {useRegex : Bool}
    (parsed : HttpEndpoint.make rx path family true useRegex = .ok idx) :
    tokenizeUrl idx.urlComplete = tokenizeUrl path ∧
      (idx.urlPars ≠ [] ↔ (tokenizeUrl path).any isWildcardSegment = true) := by
  obtain ⟨complete, -, pars⟩ := HttpEndpoint.make_ok parsed
  refine ⟨by rw [complete, tokenizeUrl_normalizeUrlComplete], ?_⟩
  rw [Ne, pars]
  simp

/-- Every key and every regex outside the trie is still there. -/
structure RouteTable.Grows (t t' : RouteTable) : Prop where
  keys : ∀ key, (t.exactRoutes.lookup key).isSome → (t'.exactRoutes.lookup key).isSome
  regexes : ∀ rr ∈ t.regexRoutes, ∃ rr' ∈ t'.regexRoutes, rr'.compiledRe = rr.compiledRe

theorem RouteTable.grows_exact (t : RouteTable) (added : List (Str × RouteEntry)) :
    t.Grows { t with exactRoutes := t.exactRoutes ++ added } where
  keys key there := by simp [List.lookup_append, there]
  regexes rr listed := ⟨rr, listed, rfl⟩

theorem RouteTable.grows_regex (t : RouteTable) (added : List RegexRoute) :
    t.Grows { t with regexRoutes := t.regexRoutes ++ added } where
  keys _ there := there
  regexes rr listed := ⟨rr, List.mem_append_left added listed, rfl⟩

theorem compiledRe_updateFirst (hit : RegexRoute → Bool) (merge : RouteEntry → RouteEntry)
    (rrs : List RegexRoute) :
    (updateFirst hit (fun rr => { rr with entry := merge rr.entry }) rrs).map (·.compiledRe) =
      rrs.map (·.compiledRe) := by
  induction rrs with
  | nil => rfl
  | cons rr rest ih =>
    rw [updateFirst]
    split
    · rfl
    · rw [List.map_cons, ih, List.map_cons]

theorem RouteTable.grows_update (t : RouteTable) (key : Str) (methods : MethodSet)
    (shim : Handler) : t.Grows (after (updateExistingV2Entry key methods shim) t) := by
  change t.Grows (ite _ _ _)
  split
  · refine ⟨fun other there => ?_, fun rr listed => ⟨rr, listed, rfl⟩⟩
    rw [Assoc.lookup_map_at]
    split
    · rwa [Option.isSome_map]
    · exact there
  · refine ⟨fun _ there => there, fun rr listed => ?_⟩
    have kept : rr.compiledRe ∈ t.regexRoutes.map (·.compiledRe) := List.mem_map_of_mem listed
    rw [← compiledRe_updateFirst _ (mergeInto methods shim)] at kept
    exact List.mem_map.mp kept

section
variable {rx : RegexEngine} {cfg : RouteConfig} {r : Registry} {path : Str}

theorem registerImpl_stores {res : Option Nat} {family : Bool}
    (ok : outcome (registerImpl rx cfg path res family) r = .ok ()) :
    let t := (after (registerImpl rx cfg path res family) r).table
    if family || (tokenizeUrl path).any isWildcardSegment then
      r.table.paramAndPrefixRoutes.firstBad rx (tokenizeUrl path) = none ∧
        ∃ entry, t = r.table.insertTrie rx (tokenizeUrl path) entry family
    else t.paramAndPrefixRoutes = r.table.paramAndPrefixRoutes ∧ r.table.Grows t := by
  obtain ⟨id, idx, t, -, parsed, placed, state⟩ := registerImpl_ok ok
  obtain ⟨tokens, pars⟩ := HttpEndpoint.make_segments parsed
  rw [state]
  have plain : family = false → classifyRouteTier rx idx ≠ .ok .radix →
      ¬ (family || (tokenizeUrl path).any isWildcardSegment) = true := by
    intro single other stored
    rw [single, Bool.false_or] at stored
    exact other (classifyRouteTier_radix (pars.mpr stored))
  cases placed with
  | trie stored compiles free =>
    rw [tokens] at compiles ⊢
    rw [if_pos (by simpa [pars] using stored)]
    exact ⟨compiles, _, rfl⟩
  | exactly single tier free =>
    rw [if_neg (plain single (by simp [tier]))]
    exact ⟨rfl, r.table.grows_exact _⟩
  | regex re single tier free =>
    rw [if_neg (plain single (by simp [tier]))]
    exact ⟨rfl, r.table.grows_regex _⟩

theorem onMethods_stores {methods : MethodSet} {handler : Option Nat}
    (ok : outcome (onMethods rx cfg methods path handler) r = .ok ()) :
    let t := (after (onMethods rx cfg methods path handler) r).table
    if (tokenizeUrl path).any isWildcardSegment then
      r.table.paramAndPrefixRoutes.firstBad rx (tokenizeUrl path) = none ∧
        ∃ entry, t = r.table.insertTrie rx (tokenizeUrl path) entry false
    else t.paramAndPrefixRoutes = r.table.paramAndPrefixRoutes ∧ r.table.Grows t := by
  obtain ⟨h, idx, id, fresh, shims, t, -, parsed, -, upserted, state⟩ := onMethods_ok ok
  obtain ⟨tokens, pars⟩ := HttpEndpoint.make_segments parsed
  rw [state]
  have plain : idx.urlPars = [] → ¬ (tokenizeUrl path).any isWildcardSegment = true := by
    intro none wild
    exact pars.mpr wild none
  cases upserted with
  | trie stored compiles free =>
    rw [tokens] at compiles ⊢
    rw [if_pos (pars.mp stored)]
    exact ⟨compiles, _, rfl⟩
  | exactly none new tier free =>
    rw [if_neg (plain none)]
    change (ite _ _ _ : RouteTable).paramAndPrefixRoutes = _ ∧ r.table.Grows (ite _ _ _)
    split
    · exact ⟨rfl, fun _ there => there, fun rr listed => ⟨rr, listed, rfl⟩⟩
    · exact ⟨rfl, r.table.grows_exact _⟩
  | regex re none new tier =>
    rw [if_neg (plain none)]
    exact ⟨rfl, r.table.grows_regex _⟩
  | update none old =>
    rw [if_neg (plain none)]
    refine ⟨?_, r.table.grows_update idx.urlComplete methods _⟩
    change (ite _ _ _ : RouteTable).paramAndPrefixRoutes = _
    split
    · rfl
    · rfl

theorem unregisterImpl_ok {family : Bool}
    (ok : outcome (unregisterImpl rx cfg path family) r = .ok ()) :
    after (unregisterImpl rx cfg path family) r =
      { r with table :=
          if family || (tokenizeUrl path).any isWildcardSegment then
            r.table.removeTrie (tokenizeUrl path) family
          else r.table.eraseKey (normalizeUrlComplete path) } := by
  unfold unregisterImpl at ok ⊢
  obtain ⟨idx, parsed, -, state⟩ := check_bind_ok ok
  obtain ⟨complete, -⟩ := HttpEndpoint.make_ok parsed
  obtain ⟨tokens, pars⟩ := HttpEndpoint.make_segments parsed
  rw [state, ← complete, ← tokens]
  rw [← tokens] at pars
  dsimp only
  cases family with
  | true =>
    simp only [if_true, Bool.true_or]
    exact after_onTable _ r
  | false =>
    by_cases stored : idx.urlPars ≠ []
    · simp only [Bool.false_eq_true, if_false, if_pos stored, Bool.false_or, if_pos (pars.mp stored)]
      exact after_onTable _ r
    · simp only [Bool.false_eq_true, if_false, if_neg stored, Bool.false_or,
        if_neg (fun wild => stored (pars.mpr wild))]
      exact after_onTable _ r

theorem unregisterResource_ok (ok : outcome (unregisterResource rx cfg path) r = .ok ()) :
    after (unregisterResource rx cfg path) r =
      { r with table :=
          ((r.table.eraseKey (normalizeUrlComplete path)).removeTrie (tokenizeUrl path)
            false).removeTrie (tokenizeUrl path) true } := by
  unfold unregisterResource at ok ⊢
  obtain ⟨idx, parsed, -, state⟩ := check_bind_ok ok
  obtain ⟨complete, -⟩ := HttpEndpoint.make_ok parsed
  obtain ⟨tokens, -⟩ := HttpEndpoint.make_segments parsed
  rw [state, ← complete, ← tokens]
  exact after_onTable _ r

theorem elim_of_stored {P : Prop} [Decidable P] {α : Type} {p : α} {same unchanged : Prop}
    {stored : α → Prop} (spec : if P then stored p else same) (weaken : same → unchanged) :
    (if P then some p else none).elim unchanged stored := by
  by_cases holds : P
  · rw [if_pos holds] at spec ⊢
    exact spec
  · rw [if_neg holds] at spec ⊢
    exact weaken spec

/-- A successful call stores its own pattern in the trie, or takes termini out of
    it; what a registration does elsewhere keeps every key and regex. -/
theorem RouteCall.mutate_stores {c : RouteCall} (ok : outcome (c.mutate rx cfg) r = .ok ()) :
    let trie := r.table.paramAndPrefixRoutes
    let t := (after (c.mutate rx cfg) r).table
    c.pattern.elim
      (t.paramAndPrefixRoutes = c.prune trie ∧ (c.isRegistration → r.table.Grows t)) fun p =>
        trie.firstBad rx p.1 = none ∧ ∃ entry, t = r.table.insertTrie rx p.1 entry p.2 := by
  intro trie t
  cases registers : c.registerArguments with
  | some arguments =>
    obtain ⟨path, res, family⟩ := arguments
    have program := RouteCall.mutate_register registers rx cfg
    have spec := registerImpl_stores (program ▸ ok)
    rw [← program] at spec
    have same : c.prune trie = trie := by cases c <;> first | rfl | cases registers
    simp only [RouteCall.pattern, registers]
    rw [same]
    exact elim_of_stored spec fun kept => kept.imp_right fun grows _ => grows
  | none =>
    cases routes : c.onArguments with
    | some arguments =>
      obtain ⟨methods, path, handler⟩ := arguments
      have same : c.prune trie = trie := by cases c <;> first | rfl | cases routes
      rcases RouteCall.mutate_on routes rx cfg with ⟨e, program, -⟩ | program
      · rw [program] at ok
        cases ok
      · have spec := onMethods_stores (program ▸ ok)
        rw [← program] at spec
        simp only [RouteCall.pattern, registers, routes]
        rw [same]
        exact elim_of_stored spec fun kept => kept.imp_right fun grows _ => grows
    | none =>
      simp only [RouteCall.pattern, registers, routes, Option.elim]
      cases c with
      | unregisterPath path =>
        refine ⟨?_, fun active => by cases active⟩
        change (after (unregisterImpl rx cfg path false) r).table.paramAndPrefixRoutes = _
        rw [unregisterImpl_ok ok, RouteCall.prune, Bool.false_or]
        dsimp only
        split
        · rfl
        · rfl
      | unregisterPrefix path =>
        refine ⟨?_, fun active => by cases active⟩
        change (after (unregisterImpl rx cfg path true) r).table.paramAndPrefixRoutes = _
        rw [unregisterImpl_ok ok]
        rfl
      | unregisterResource path =>
        refine ⟨?_, fun active => by cases active⟩
        change (after (HttpServer.unregisterResource rx cfg path) r).table.paramAndPrefixRoutes = _
        rw [unregisterResource_ok ok]
        rfl
      | registerPath path res => cases registers
      | registerPrefix path res => cases registers
      | on forwarder path handler => cases routes
      | routeMethod m path handler => cases routes
      | routeSet methods path handler => cases routes

end
end HttpServer
