import HttpServer.RegistryInvariant

/-!
What a registration that throws leaves behind. All checks come before the first
write but two: the constraint of a new parameter node is compiled when the nodes
above it are in place, and a lambda handler is put into its shim before the
prefix collision of its pattern is looked for.
-/
namespace HttpServer
open Effect

def Registry.Unchanged (r r' : Registry) : Prop := r'.table = r.table ∧ r.shims <+: r'.shims

theorem Registry.unchanged_refl (r : Registry) : r.Unchanged r := ⟨rfl, List.prefix_refl _⟩

/-- A `register_*` call passes its checks and the trie insertion meets a
    constraint that does not compile. -/
def RegisterLeaves (rx : RegexEngine) (cfg : RouteConfig) (r : Registry) (path : Str)
    (res : Option Nat) (family : Bool) : Prop :=
  ∃ id idx, validateRegisterInputs cfg path res family = .ok id ∧
    HttpEndpoint.make rx path family true cfg.regexChecking = .ok idx ∧
    r.table.collides idx.urlComplete family = false ∧
    outcome (rejectDuplicateV2Entry rx idx family) r.table = .ok () ∧
    (family = true ∨ idx.urlPars ≠ []) ∧
    r.table.paramAndPrefixRoutes.firstBad rx (tokenizeUrl idx.urlComplete) ≠ none

/-- An `on_*` or `route` call for a parameterised path has a shim to fill, and
    the path is a prefix route while the shim is one in use, or the trie
    insertion meets a constraint that does not compile. -/
def OnLeaves (rx : RegexEngine) (cfg : RouteConfig) (r : Registry) (methods : MethodSet)
    (path : Str) (handler : Option Nat) : Prop :=
  ∃ h idx id fresh shims, validateOnMethodsInputs cfg methods path handler = .ok h ∧
    HttpEndpoint.make rx path false true cfg.regexChecking = .ok idx ∧
    ShimChosen rx r idx methods id fresh shims ∧ idx.urlPars ≠ [] ∧
    if r.table.collides idx.urlComplete false then fresh = false
    else r.table.paramAndPrefixRoutes.firstBad rx (tokenizeUrl idx.urlComplete) ≠ none

def RouteCall.Leaves (rx : RegexEngine) (cfg : RouteConfig) (r : Registry) (c : RouteCall) : Prop :=
  match c.registerArguments, c.onArguments with
  | some (path, res, family), _ => RegisterLeaves rx cfg r path res family
  | none, some (methods, path, handler) => OnLeaves rx cfg r methods path handler
  | none, none => False

variable {rx : RegexEngine} {e : RegistrationError} {methods : MethodSet} {cfg : RouteConfig}
  {r : Registry} {t : RouteTable} {idx : HttpEndpoint} {path : Str} {family fresh : Bool}
  {entry : RouteEntry} {handler : Option Nat} {shims : List LambdaResource} {id : Nat} {h : Nat}
  {isPrefix : Bool} {res : Option Nat}

theorem insertTrie_ne {segs : List Str} (bad : t.paramAndPrefixRoutes.firstBad rx segs ≠ none) :
    t.insertTrie rx segs entry isPrefix ≠ t := by
  intro same
  exact TrieNode.insertSegments_ne rx entry isPrefix bad
    (congrArg RouteTable.paramAndPrefixRoutes same)

theorem insertParamPrefix_error {key : Str}
    (failed : outcome (insertParamPrefix rx key entry isPrefix) t = .error e) :
    t.paramAndPrefixRoutes.firstBad rx (tokenizeUrl key) ≠ none ∧
      after (insertParamPrefix rx key entry isPrefix) t =
        t.insertTrie rx (tokenizeUrl key) entry isPrefix := by
  have bad : t.paramAndPrefixRoutes.firstBad rx (tokenizeUrl key) ≠ none := by
    intro none
    rw [outcome_insertParamPrefix, none] at failed
    cases failed
  exact ⟨bad, after_insertParamPrefix rx t key entry isPrefix⟩

theorem placeV2Route_error (unique : outcome (rejectDuplicateV2Entry rx idx family) t = .ok ())
    (failed : outcome (placeV2Route rx idx entry family) t = .error e) :
    (family = true ∨ idx.urlPars ≠ []) ∧
      t.paramAndPrefixRoutes.firstBad rx (tokenizeUrl idx.urlComplete) ≠ none ∧
      after (placeV2Route rx idx entry family) t =
        t.insertTrie rx (tokenizeUrl idx.urlComplete) entry family := by
  unfold placeV2Route at failed ⊢
  rcases rejectDuplicateV2Entry_ok unique with ⟨rfl, -⟩ | ⟨rfl, ⟨tier, -⟩ | ⟨tier, -⟩ | ⟨re, tier, -⟩⟩
  · rw [if_pos rfl] at failed ⊢
    exact ⟨Or.inl rfl, insertParamPrefix_error failed⟩
  · simp only [Bool.false_eq_true, if_false, tier] at failed
    cases failed
  · simp only [Bool.false_eq_true, if_false, tier] at failed ⊢
    refine ⟨Or.inr fun plain => classifyRouteTier_plain plain tier, insertParamPrefix_error failed⟩
  · simp only [Bool.false_eq_true, if_false, tier] at failed
    cases failed

theorem registerV2Route_error {res : Nat}
    (failed : outcome (registerV2Route rx idx res family) t = .error e) :
    (after (registerV2Route rx idx res family) t = t ∧
        ¬ (t.collides idx.urlComplete family = false ∧
          outcome (rejectDuplicateV2Entry rx idx family) t = .ok ())) ∨
      (t.collides idx.urlComplete family = false ∧
        outcome (rejectDuplicateV2Entry rx idx family) t = .ok () ∧
        (family = true ∨ idx.urlPars ≠ []) ∧
        t.paramAndPrefixRoutes.firstBad rx (tokenizeUrl idx.urlComplete) ≠ none ∧
        after (registerV2Route rx idx res family) t =
          t.insertTrie rx (tokenizeUrl idx.urlComplete) ⟨.setAll, .resource res, family⟩ family) := by
  have collision := outcome_rejectTerminusCollision t idx.urlComplete family
  have kept := (steps_rejectTerminusCollision idx.urlComplete family t).symm
  have kept' := (steps_rejectDuplicateV2Entry rx idx family t).symm
  unfold registerV2Route at failed ⊢
  by_cases collides : t.collides idx.urlComplete family = true
  · rw [if_pos collides] at collision
    rw [(bind_of_error t collision).2, kept]
    exact Or.inl ⟨rfl, fun passed => by simp [collides] at passed⟩
  · rw [if_neg collides] at collision
    obtain ⟨result, state⟩ := bind_of_ok t collision
    rw [state, kept]
    rw [result, kept] at failed
    cases unique : outcome (rejectDuplicateV2Entry rx idx family) t with
    | error e' =>
      rw [(bind_of_error t unique).2, kept']
      exact Or.inl ⟨rfl, fun passed => nomatch passed.2⟩
    | ok _ =>
      obtain ⟨result, state⟩ := bind_of_ok t unique
      rw [state, kept']
      rw [result, kept'] at failed
      exact Or.inr ⟨by simpa using collides, rfl, placeV2Route_error unique failed⟩

theorem registerImpl_failed (failed : outcome (registerImpl rx cfg path res family) r = .error e) :
    (after (registerImpl rx cfg path res family) r = r ∧
        ¬ RegisterLeaves rx cfg r path res family) ∨
      (RegisterLeaves rx cfg r path res family ∧ ∃ segs entry,
        r.table.paramAndPrefixRoutes.firstBad rx segs ≠ none ∧
        after (registerImpl rx cfg path res family) r =
          { r with table := r.table.insertTrie rx segs entry family }) := by
  unfold registerImpl at failed ⊢
  cases valid : validateRegisterInputs cfg path res family with
  | error e' =>
    refine Or.inl ⟨rfl, ?_⟩
    rintro ⟨id, idx, valid', -⟩
    rw [valid] at valid'
    cases valid'
  | ok id =>
    cases parsed : HttpEndpoint.make rx path family true cfg.regexChecking with
    | error e' =>
      refine Or.inl ⟨rfl, ?_⟩
      rintro ⟨id', idx, -, parsed', -⟩
      rw [parsed] at parsed'
      cases parsed'
    | ok idx =>
      rw [valid, parsed] at failed
      change outcome (onTable (registerV2Route rx idx id family)) r = .error e at failed
      change (after (onTable (registerV2Route rx idx id family)) r = r ∧ _) ∨
        (_ ∧ ∃ segs entry, _ ∧ after (onTable (registerV2Route rx idx id family)) r = _)
      rw [outcome_onTable] at failed
      rw [after_onTable]
      rcases registerV2Route_error failed with ⟨same, refused⟩ | ⟨free, unique, stored, bad, state⟩
      · rw [same]
        refine Or.inl ⟨rfl, ?_⟩
        rintro ⟨id', idx', -, parsed', free, unique, -⟩
        rw [parsed] at parsed'
        cases parsed'
        exact refused ⟨free, unique⟩
      · rw [state]
        exact Or.inr ⟨⟨id, idx, valid, parsed, free, unique, stored, bad⟩, _, _, bad, rfl⟩

theorem registerImpl_error (failed : outcome (registerImpl rx cfg path res family) r = .error e) :
    (r.Unchanged (after (registerImpl rx cfg path res family) r) ∧
        ¬ RegisterLeaves rx cfg r path res family) ∨
      (RegisterLeaves rx cfg r path res family ∧
        ¬ r.Unchanged (after (registerImpl rx cfg path res family) r)) := by
  rcases registerImpl_failed failed with ⟨same, clean⟩ | ⟨leaves, segs, entry, bad, state⟩
  · rw [same]
    exact Or.inl ⟨r.unchanged_refl, clean⟩
  · rw [state]
    exact Or.inr ⟨leaves, fun unchanged => insertTrie_ne bad unchanged.1⟩

theorem upsertV2TableEntryLocked_error {shim : Handler}
    (failed : outcome (upsertV2TableEntryLocked rx idx methods shim fresh) t = .error e) :
    (after (upsertV2TableEntryLocked rx idx methods shim fresh) t = t ∧
        (idx.urlPars ≠ [] ∧ t.collides idx.urlComplete false = true ∨
          idx.urlPars = [] ∧ fresh = true)) ∨
      (idx.urlPars ≠ [] ∧ t.collides idx.urlComplete false = false ∧
        t.paramAndPrefixRoutes.firstBad rx (tokenizeUrl idx.urlComplete) ≠ none ∧
        ∃ entry, after (upsertV2TableEntryLocked rx idx methods shim fresh) t =
          t.insertTrie rx (tokenizeUrl idx.urlComplete) entry false) := by
  have collision := outcome_rejectTerminusCollision t idx.urlComplete false
  have kept := (steps_rejectTerminusCollision idx.urlComplete false t).symm
  unfold upsertV2TableEntryLocked at failed ⊢
  by_cases pars : idx.urlPars ≠ []
  · rw [if_pos pars] at failed ⊢
    unfold upsertV2RadixRoute at failed ⊢
    by_cases collides : t.collides idx.urlComplete false = true
    · rw [if_pos collides] at collision
      rw [(bind_of_error t collision).2, kept]
      exact Or.inl ⟨rfl, Or.inl ⟨pars, collides⟩⟩
    · rw [if_neg collides] at collision
      obtain ⟨result, state⟩ := bind_of_ok t collision
      rw [state, kept, after_get_bind]
      rw [result, kept, outcome_get_bind] at failed
      obtain ⟨bad, final⟩ := insertParamPrefix_error failed
      exact Or.inr ⟨pars, by simpa using collides, bad, _, final⟩
  · rw [if_neg pars] at failed ⊢
    have plain : idx.urlPars = [] := not_not.mp pars
    cases fresh with
    | false => cases failed
    | true =>
      simp only [if_true] at failed ⊢
      refine Or.inl ⟨?_, Or.inr ⟨plain, trivial⟩⟩
      unfold insertFreshV2Entry at failed ⊢
      cases tier : classifyRouteTier rx idx with
      | error e' => rfl
      | ok kind =>
        rw [tier] at failed
        cases kind with
        | radix => rfl
        | regex re => cases failed
        | exact =>
          dsimp only at failed ⊢
          by_cases collides : t.collides idx.urlComplete false = true
          · rw [if_pos collides] at collision
            rw [(bind_of_error t collision).2, kept]
          · rw [if_neg collides] at collision
            rw [(bind_of_ok t collision).1] at failed
            cases failed

theorem hasSlot_foldl_setSlot (ms : List HttpMethod) (shim : LambdaResource) (h : Nat)
    (n : HttpMethod) :
    (ms.foldl (fun shim m => shim.setSlot m h) shim).hasSlot n =
      (shim.hasSlot n || decide (n ∈ ms)) := by
  induction ms generalizing shim with
  | nil => simp
  | cons m ms ih =>
    have set : (shim.setSlot m h).hasSlot n = (shim.hasSlot n || decide (m = n)) :=
      MethodSet.contains_set shim.methodsAllowed m n
    simp [ih, set, Bool.or_assoc, eq_comm]

theorem hasSlot_fill (methods : MethodSet) (h : Nat) (shim : LambdaResource) (n : HttpMethod) :
    (shim.fill methods h).hasSlot n =
      (shim.hasSlot n || decide (n ∈ requestedMethods methods)) :=
  hasSlot_foldl_setSlot (requestedMethods methods) shim h n

theorem validateOnMethodsInputs_ok (ok : validateOnMethodsInputs cfg methods path handler = .ok h) :
    handler = some h ∧ requestedMethods methods ≠ [] := by
  unfold validateOnMethodsInputs at ok
  split at ok
  · cases ok
  · rename_i nonempty
    obtain ⟨m, listed, present⟩ :=
      MethodSet.exists_contains (show methods.isEmpty = false by simpa using nonempty)
    have requested : requestedMethods methods ≠ [] :=
      List.ne_nil_of_mem (List.mem_filter.mpr ⟨listed, present⟩)
    cases handler with
    | none => cases ok
    | some handler =>
      dsimp only at ok
      split at ok
      · cases ok
      · split at ok
        · cases ok
        · split at ok
          · cases ok
          · cases ok
            exact ⟨rfl, requested⟩

theorem modify_fill_ne (inside : id < shims.length) (requested : requestedMethods methods ≠ [])
    (free : (requestedMethods methods).any (shims.getD id LambdaResource.fresh).hasSlot = false) :
    ¬ shims <+: shims.modify id (LambdaResource.fill methods h) := by
  intro front
  have same := front.eq_of_length (by simp)
  obtain ⟨m, rest, split⟩ := List.exists_cons_of_ne_nil requested
  have listed : m ∈ requestedMethods methods := by simp [split]
  have absent : (shims.getD id LambdaResource.fresh).hasSlot m = false := by
    simpa using List.any_eq_false.mp free m listed
  have written : (shims.modify id (LambdaResource.fill methods h)).getD id LambdaResource.fresh =
      (shims.getD id LambdaResource.fresh).fill methods h := by
    simp [List.getD_eq_getElem?_getD, inside]
  rw [← same] at written
  rw [written, hasSlot_fill] at absent
  simp [listed] at absent

theorem onMethods_failed (failed : outcome (onMethods rx cfg methods path handler) r = .error e) :
    (after (onMethods rx cfg methods path handler) r = r ∧
        ∀ h idx id fresh shims, validateOnMethodsInputs cfg methods path handler = .ok h →
          HttpEndpoint.make rx path false true cfg.regexChecking = .ok idx →
          ¬ ShimChosen rx r idx methods id fresh shims) ∨
      ∃ h idx id fresh shims, validateOnMethodsInputs cfg methods path handler = .ok h ∧
        HttpEndpoint.make rx path false true cfg.regexChecking = .ok idx ∧
        ShimChosen rx r idx methods id fresh shims ∧
        outcome (upsertV2TableEntryLocked rx idx methods (.lambda id) fresh) r.table = .error e ∧
        after (onMethods rx cfg methods path handler) r =
          ⟨after (upsertV2TableEntryLocked rx idx methods (.lambda id) fresh) r.table,
            shims.modify id (LambdaResource.fill methods h)⟩ := by
  unfold onMethods at failed ⊢
  cases valid : validateOnMethodsInputs cfg methods path handler with
  | error e' => exact Or.inl ⟨rfl, fun h idx id fresh shims valid' => nomatch valid'⟩
  | ok h =>
    cases parsed : HttpEndpoint.make rx path false true cfg.regexChecking with
    | error e' => exact Or.inl ⟨rfl, fun h idx id fresh shims _ parsed' => nomatch parsed'⟩
    | ok idx =>
      rw [valid, parsed] at failed
      change outcome (prepareOrCreateLambdaShim rx idx methods >>= _) r = .error e at failed
      change (after (prepareOrCreateLambdaShim rx idx methods >>= _) r = r ∧ _) ∨
        ∃ h' idx' id fresh shims, _ ∧ _ ∧ _ ∧ _ ∧
          after (prepareOrCreateLambdaShim rx idx methods >>= _) r = _
      rcases prepareOrCreateLambdaShim_cases rx idx methods r with
        ⟨id, fresh, shims, chosen, result, state⟩ | ⟨none, ⟨e', refused⟩, state⟩
      · rw [(bind_of_ok r result).1, state] at failed
        rw [(bind_of_ok r result).2, state]
        let filled : Registry := ⟨r.table, shims.modify id (LambdaResource.fill methods h)⟩
        refine Or.inr ⟨h, idx, id, fresh, shims, rfl, rfl, chosen, ?_, ?_⟩
        · exact (outcome_onTable (upsertV2TableEntryLocked rx idx methods (.lambda id) fresh)
            filled).symm.trans failed
        · exact after_onTable (upsertV2TableEntryLocked rx idx methods (.lambda id) fresh) filled
      · rw [(bind_of_error r refused).2, state]
        refine Or.inl ⟨rfl, fun h' idx' id fresh shims _ parsed' => ?_⟩
        cases parsed'
        exact none id fresh shims

/-- When the upsert throws, the chosen shim is filled already. That shows when
    it was in use, and the trie shows when the insertion threw. -/
theorem upsert_traces (sane : r.Sane rx cfg) {h : Nat} (requested : requestedMethods methods ≠ [])
    (chosen : ShimChosen rx r idx methods id fresh shims)
    (failed : outcome (upsertV2TableEntryLocked rx idx methods (.lambda id) fresh) r.table =
      .error e) : let final : Registry :=
      ⟨after (upsertV2TableEntryLocked rx idx methods (.lambda id) fresh) r.table,
        shims.modify id (LambdaResource.fill methods h)⟩
    let leaves := idx.urlPars ≠ [] ∧
      if r.table.collides idx.urlComplete false then fresh = false
      else r.table.paramAndPrefixRoutes.firstBad rx (tokenizeUrl idx.urlComplete) ≠ none
    (r.Unchanged final ∧ ¬ leaves) ∨ (leaves ∧ ¬ r.Unchanged final) := by
  intro final leaves
  rcases upsertV2TableEntryLocked_error failed with ⟨same, why⟩ | ⟨pars, free, bad, entry, state⟩
  · cases chosen with
    | new missing =>
      -- only the new shim is written, and no entry points to it
      refine Or.inl ⟨⟨same, Assoc.prefix_modify_new _ _ _⟩, ?_⟩
      rintro ⟨pars, cond⟩
      rcases why with ⟨-, collides⟩ | ⟨plain, -⟩
      · rw [if_pos collides] at cond
        cases cond
      · exact pars plain
    | existing _ entry found lambda free =>
      rcases why with ⟨pars, collides⟩ | ⟨-, new⟩
      · refine Or.inr ⟨⟨pars, by rw [if_pos collides]⟩, fun unchanged => ?_⟩
        have inside := ((ShimChosen.existing id entry found lambda free).sane sane).2 pars
        exact modify_fill_ne inside requested free unchanged.2
      · cases new
  · refine Or.inr ⟨⟨pars, ?_⟩, fun unchanged => insertTrie_ne bad (state.symm.trans unchanged.1)⟩
    rw [if_neg (by simp [free])]
    exact bad

theorem ShimChosen.fresh_unique {id' : Nat} {fresh' : Bool} {shims' : List LambdaResource}
    (chosen : ShimChosen rx r idx methods id fresh shims)
    (chosen' : ShimChosen rx r idx methods id' fresh' shims') : fresh = fresh' := by
  cases chosen with
  | new missing =>
    cases chosen' with
    | new => rfl
    | existing _ entry found => simp [missing] at found
  | existing _ entry found =>
    cases chosen' with
    | new missing => simp [missing] at found
    | existing => rfl

theorem onMethods_error (sane : r.Sane rx cfg)
    (failed : outcome (onMethods rx cfg methods path handler) r = .error e) :
    (r.Unchanged (after (onMethods rx cfg methods path handler) r) ∧
        ¬ OnLeaves rx cfg r methods path handler) ∨
      (OnLeaves rx cfg r methods path handler ∧
        ¬ r.Unchanged (after (onMethods rx cfg methods path handler) r)) := by
  rcases onMethods_failed failed with
    ⟨same, none⟩ | ⟨h, idx, id, fresh, shims, valid, parsed, chosen, threw, state⟩
  · rw [same]
    refine Or.inl ⟨r.unchanged_refl, ?_⟩
    rintro ⟨h, idx, id, fresh, shims, valid, parsed, chosen, -⟩
    exact none h idx id fresh shims valid parsed chosen
  · rw [state]
    have requested := (validateOnMethodsInputs_ok valid).2
    rcases upsert_traces sane requested chosen threw with ⟨unchanged, clean⟩ | ⟨leaves, changed⟩
    · refine Or.inl ⟨unchanged, ?_⟩
      rintro ⟨h', idx', id', fresh', shims', -, parsed', chosen', leaves⟩
      rw [parsed] at parsed'
      cases parsed'
      rw [← chosen.fresh_unique chosen'] at leaves
      exact clean leaves
    · exact Or.inr ⟨⟨h, idx, id, fresh, shims, valid, parsed, chosen, leaves⟩, changed⟩

/-- A registration that throws leaves the registry as it was unless it gets past
    its checks to a constraint that does not compile, or to the prefix collision
    of a path whose probe has found a shim in use. -/
theorem failed_registration_atomic_iff (rx : RegexEngine) (cfg : RouteConfig)
    (calls : List RouteCall) (c : RouteCall) (e : RegistrationError)
    (registration : c.isRegistration = true)
    (failed : outcome (c.mutate rx cfg) (Registry.empty.run rx cfg calls) = .error e) :
    let r := Registry.empty.run rx cfg calls
    r.Unchanged (after (c.mutate rx cfg) r) ↔ ¬ c.Leaves rx cfg r := by
  intro r
  have sane : r.Sane rx cfg := sane_run calls sane_empty
  have decided : (r.Unchanged (after (c.mutate rx cfg) r) ∧ ¬ c.Leaves rx cfg r) ∨
      (c.Leaves rx cfg r ∧ ¬ r.Unchanged (after (c.mutate rx cfg) r)) := by
    cases registers : c.registerArguments with
    | some arguments =>
      obtain ⟨path, res, family⟩ := arguments
      have leaves : c.Leaves rx cfg r = RegisterLeaves rx cfg r path res family := by
        simp only [RouteCall.Leaves, registers]
      have program := RouteCall.mutate_register registers rx cfg
      rw [leaves, program]
      exact registerImpl_error (program ▸ failed)
    | none =>
      cases routes : c.onArguments with
      | none => cases c <;> first | cases registers; done | cases routes; done | cases registration
      | some arguments =>
        obtain ⟨methods, path, handler⟩ := arguments
        have leaves : c.Leaves rx cfg r = OnLeaves rx cfg r methods path handler := by
          simp only [RouteCall.Leaves, registers, routes]
        rw [leaves]
        rcases RouteCall.mutate_on routes rx cfg with ⟨e', program, empty⟩ | program
        · rw [program]
          refine Or.inl ⟨r.unchanged_refl, ?_⟩
          rintro ⟨h, idx, id, fresh, shims, valid, -⟩
          simp [validateOnMethodsInputs, empty] at valid
        · rw [program]
          exact onMethods_error sane (program ▸ failed)
  rcases decided with ⟨unchanged, clean⟩ | ⟨leaves, changed⟩
  · exact ⟨fun _ => clean, fun _ => unchanged⟩
  · exact ⟨fun unchanged => absurd unchanged changed, fun clean => absurd leaves clean⟩

theorem duplicate_registration_atomic :
    let r := Registry.empty.run Server.literalEngine ⟨false, false⟩
      [.registerPath "/a/{x}".toList (some 1)]
    r.Unchanged (after ((RouteCall.registerPath "/a/{y}".toList (some 2)).mutate
        Server.literalEngine ⟨false, false⟩) r) ↔
      ¬ (RouteCall.registerPath "/a/{y}".toList (some 2)).Leaves Server.literalEngine
        ⟨false, false⟩ r :=
  failed_registration_atomic_iff Server.literalEngine ⟨false, false⟩
    [.registerPath "/a/{x}".toList (some 1)] (.registerPath "/a/{y}".toList (some 2))
    (.duplicateRegistration "/a/{y}".toList) rfl (by decide)

def bracketEngine : RegexEngine := ⟨fun re => decide (re ≠ ['[']), fun s re => s == re⟩

def openBracketPath : Str := "/a/\x7bid|[\x7d".toList

def twoParameterCalls : List RouteCall :=
  [.on .onGet "/a/{p}/{q}".toList (some 7), .registerPrefix "/a/{x}".toList (some 1)]

/-- A constraint that does not compile leaves its nodes in the trie. And a `POST`
    registration that is refused, since its path is a prefix route, has put its
    handler into the shim of another path. -/
theorem failed_registrations_leave_traces :
    (outcome ((RouteCall.registerPath openBracketPath (some 1)).mutate bracketEngine
          ⟨false, false⟩) Registry.empty = .error (.invalidRegex ['[']) ∧
      (Registry.empty.table.paramAndPrefixRoutes.child ['a']).isSome = false ∧
      ((after ((RouteCall.registerPath openBracketPath (some 1)).mutate bracketEngine
        ⟨false, false⟩) Registry.empty).table.paramAndPrefixRoutes.child ['a']).isSome = true) ∧
    outcome ((RouteCall.on .onPost "/a//{x}".toList (some 8)).mutate bracketEngine ⟨false, false⟩)
        (Registry.empty.run bracketEngine ⟨false, false⟩ twoParameterCalls) =
      .error (.terminusCollision "/a//{x}".toList false) ∧
    ((Registry.empty.run bracketEngine ⟨false, false⟩ twoParameterCalls).shims.map
        fun shim => shim.slots .post) = [none] ∧
    ((after ((RouteCall.on .onPost "/a//{x}".toList (some 8)).mutate bracketEngine ⟨false, false⟩)
        (Registry.empty.run bracketEngine ⟨false, false⟩ twoParameterCalls)).shims.map
        fun shim => shim.slots .post) = [some 8] := by
  decide +kernel

end HttpServer
