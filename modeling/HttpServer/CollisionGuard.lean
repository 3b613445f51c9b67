import HttpServer.RoutePlaces

/-!
What the collision and duplicate checks keep apart. Five insertions go past the
checks into three containers, one probed by the segments of a path and two by
its text, so the guard is an invariant of whole runs only when two texts with
the same segments are the same text.
-/
namespace HttpServer
open Effect

/-- Exact and prefix registrations share no path, and no text is registered twice.
    `nodeAt` reaches every node of the trie. -/
structure RouteTable.Guarded (t : RouteTable) : Prop where
  termini : ∀ shape node, t.paramAndPrefixRoutes.nodeAt shape = some node →
    ¬ (node.exactTerminus.isSome = true ∧ node.prefixTerminus.isSome = true)
  exactKeys : ∀ kv ∈ t.exactRoutes, t.paramAndPrefixRoutes.hasTerminusAt kv.1 true = false
  tiers : ∀ kv ∈ t.exactRoutes, ∀ rr ∈ t.regexRoutes, kv.1 ≠ rr.urlComplete
  texts : (t.regexRoutes.map (·.urlComplete)).Nodup

/-- The part of the guard that the checks themselves keep: the trie by patterns,
    and the keys of the exact map as texts of paths without empty segments. -/
structure RouteTable.Apart (t : RouteTable) : Prop where
  termini : ∀ shape, t.paramAndPrefixRoutes.terminusAt shape false = none ∨
    t.paramAndPrefixRoutes.terminusAt shape true = none
  keys : ∀ kv ∈ t.exactRoutes, ∃ path, NoEmptySegment path ∧ placeOf path = .key kv.1
  exactKeys : ∀ kv ∈ t.exactRoutes,
    t.paramAndPrefixRoutes.terminusAt (shapeOf (tokenizeUrl kv.1)) true = none
  texts : (t.regexRoutes.map (·.urlComplete)).Nodup

theorem normalizeUrlComplete_of_placeOf {path text : Str} (place : placeOf path = .key text) :
    normalizeUrlComplete path = text := by
  unfold placeOf at place
  split at place
  · cases place
  · exact Place.key.inj place

namespace RouteTable
variable {rx : RegexEngine} {t : RouteTable}

theorem apart_empty : RouteTable.empty.Apart := by
  refine ⟨fun shape => Or.inl ?_, fun kv member => (nomatch member),
    fun kv member => (nomatch member), List.nodup_nil⟩
  exact TrieNode.terminusAt_bare TrieNode.next_empty (fun kind => by cases kind <;> rfl) shape false

theorem Apart.key_of_shape (apart : t.Apart) {kv : Str × RouteEntry} (listed : kv ∈ t.exactRoutes)
    {path : Str} (clean : NoEmptySegment path)
    (same : shapeOf (tokenizeUrl kv.1) = shapeOf (tokenizeUrl path)) :
    kv.1 = normalizeUrlComplete path := by
  obtain ⟨own, cleanOwn, place⟩ := apart.keys kv listed
  have text := normalizeUrlComplete_of_placeOf place
  have segments : tokenizeUrl kv.1 = tokenizeUrl own := by
    rw [← text, tokenizeUrl_normalizeUrlComplete]
  rw [segments] at same
  rw [(placeOf_eq_iff cleanOwn clean).mpr same] at place
  exact (normalizeUrlComplete_of_placeOf place).symm

theorem prefix_free {key : Str} (free : t.collides key true = false) :
    t.exactRoutes.lookup key = none ∧ t.paramAndPrefixRoutes.hasTerminusAt key false = false := by
  obtain ⟨noKey, noTerminus⟩ := Bool.or_eq_false_iff.mp free
  exact ⟨Option.isSome_eq_false_iff.mp noKey |> Option.isNone_iff_eq_none.mp, noTerminus⟩

theorem Apart.insertTrie (apart : t.Apart) (tidy : t.paramAndPrefixRoutes.Tidy) {path : Str}
    (clean : NoEmptySegment path) {isPrefix : Bool}
    (free : t.collides (normalizeUrlComplete path) isPrefix = false) (entry : RouteEntry) :
    (t.insertTrie rx (tokenizeUrl path) entry isPrefix).Apart := by
  have written := TrieNode.terminusAt_insertSegments rx entry isPrefix t.paramAndPrefixRoutes
    (tokenizeUrl path)
  have other : t.paramAndPrefixRoutes.terminusAt (shapeOf (tokenizeUrl path)) (!isPrefix) = none := by
    have probe := TrieNode.hasTerminusAt_eq tidy (normalizeUrlComplete path) (!isPrefix)
    rw [tokenizeUrl_normalizeUrlComplete] at probe
    rw [← Option.not_isSome_iff_eq_none, ← probe]
    cases isPrefix with
    | true => simpa using (prefix_free free).2
    | false => simpa [collides] using free
  refine ⟨fun shape => ?_, apart.keys, fun kv listed => ?_, apart.texts⟩
  · simp only [RouteTable.insertTrie, written]
    by_cases here : shape = shapeOf (tokenizeUrl path)
    · subst here
      cases isPrefix with
      | true => exact Or.inl (by simpa using other)
      | false => exact Or.inr (by simpa using other)
    · simpa [here] using apart.termini shape
  · simp only [RouteTable.insertTrie, written]
    rw [if_neg]
    · exact apart.exactKeys kv listed
    · rintro ⟨-, same, kind⟩
      subst kind
      have key := apart.key_of_shape listed clean same
      exact (Assoc.lookup_eq_none_iff_keys _ _).mp (prefix_free free).1 kv listed key

theorem Apart.removeTrie (apart : t.Apart) (tidy : t.paramAndPrefixRoutes.Tidy) (segs : List Str)
    (isPrefix : Bool) : (t.removeTrie segs isPrefix).Apart := by
  have cleared : ∀ shape kind, t.paramAndPrefixRoutes.terminusAt shape kind = none →
      (t.removeTrie segs isPrefix).paramAndPrefixRoutes.terminusAt shape kind = none := by
    intro shape kind none
    simp only [RouteTable.removeTrie, TrieNode.terminusAt_removeSegments tidy, none, ite_self]
  exact ⟨fun shape => (apart.termini shape).imp (cleared shape false) (cleared shape true),
    apart.keys, fun kv listed => cleared _ true (apart.exactKeys kv listed), apart.texts⟩

theorem Apart.eraseKey (apart : t.Apart) (key : Str) : (t.eraseKey key).Apart :=
  ⟨apart.termini, fun kv listed => apart.keys kv (List.mem_filter.mp listed).1,
    fun kv listed => apart.exactKeys kv (List.mem_filter.mp listed).1,
    apart.texts.sublist (List.filter_sublist.map _)⟩

theorem Apart.emplace (apart : t.Apart) (tidy : t.paramAndPrefixRoutes.Tidy) {path : Str}
    (clean : NoEmptySegment path) {key : Str} (place : placeOf path = .key key)
    (free : t.collides key false = false) (entry : RouteEntry) :
    { t with exactRoutes := t.exactRoutes ++ [(key, entry)] }.Apart := by
  have alone : t.paramAndPrefixRoutes.terminusAt (shapeOf (tokenizeUrl key)) true = none := by
    rw [← Option.not_isSome_iff_eq_none, ← TrieNode.hasTerminusAt_eq tidy key true]
    simpa [collides] using free
  refine ⟨apart.termini, fun kv listed => ?_, fun kv listed => ?_, apart.texts⟩
  · rcases List.mem_append.mp listed with old | new
    · exact apart.keys kv old
    · rw [List.mem_singleton.mp new]
      exact ⟨path, clean, place⟩
  · rcases List.mem_append.mp listed with old | new
    · exact apart.exactKeys kv old
    · rw [List.mem_singleton.mp new]
      exact alone

theorem Apart.push (apart : t.Apart) {rr : RegexRoute}
    (free : ∀ old ∈ t.regexRoutes, old.urlComplete ≠ rr.urlComplete) :
    { t with regexRoutes := t.regexRoutes ++ [rr] }.Apart := by
  refine ⟨apart.termini, apart.keys, apart.exactKeys, ?_⟩
  rw [List.map_append, List.map_singleton]
  refine List.nodup_append.mpr ⟨apart.texts, List.nodup_singleton _, fun text listed last final => ?_⟩
  obtain ⟨old, member, rfl⟩ := List.mem_map.mp listed
  rw [List.mem_singleton.mp final]
  exact free old member

theorem texts_updateFirst (hit : RegexRoute → Bool) {f : RegexRoute → RegexRoute}
    (keeps : ∀ rr, (f rr).urlComplete = rr.urlComplete) (rrs : List RegexRoute) :
    (updateFirst hit f rrs).map (·.urlComplete) = rrs.map (·.urlComplete) := by
  induction rrs with
  | nil => rfl
  | cons rr rest ih =>
    rw [updateFirst]
    split
    · simp [keeps]
    · simp [ih]

theorem Apart.update (apart : t.Apart) (key : Str) (methods : MethodSet) (shim : Handler) :
    (after (updateExistingV2Entry key methods shim) t).Apart := by
  change (ite _ _ _ : RouteTable).Apart
  split
  · have old : ∀ kv ∈ t.exactRoutes.map (fun kv =>
        if kv.1 = key then (kv.1, mergeInto methods shim kv.2) else kv),
        ∃ before ∈ t.exactRoutes, before.1 = kv.1 := by
      intro kv listed
      obtain ⟨before, member, rfl⟩ := List.mem_map.mp listed
      refine ⟨before, member, ?_⟩
      split
      · rfl
      · rfl
    refine ⟨apart.termini, fun kv listed => ?_, fun kv listed => ?_, apart.texts⟩
    · obtain ⟨before, member, same⟩ := old kv listed
      rw [← same]
      exact apart.keys before member
    · obtain ⟨before, member, same⟩ := old kv listed
      rw [← same]
      exact apart.exactKeys before member
  · refine ⟨apart.termini, apart.keys, apart.exactKeys, ?_⟩
    have kept := texts_updateFirst (fun rr => decide (rr.entry.handler = shim))
      (f := fun rr => { rr with entry := mergeInto methods shim rr.entry }) (fun _ => rfl)
      t.regexRoutes
    rw [kept]
    exact apart.texts

end RouteTable

def RouteCall.path : RouteCall → Str
  | .registerPath path _ | .registerPrefix path _ | .on _ path _ | .routeMethod _ path _
  | .routeSet _ path _ | .unregisterPath path | .unregisterPrefix path
  | .unregisterResource path => path

section
variable {rx : RegexEngine} {cfg : RouteConfig} {path : Str} {idx : HttpEndpoint}

def Ready (t : RouteTable) : Prop := t.paramAndPrefixRoutes.Tidy ∧ t.Apart

abbrev KeepsApart (P : RouteTable → Prop) (x : TableM Unit) : Prop :=
  Spec P x (fun _ => RouteTable.Apart) fun _ => RouteTable.Apart

theorem apart_insertParamPrefix {isPrefix : Bool} (clean : NoEmptySegment path)
    (parsed : HttpEndpoint.make rx path isPrefix true cfg.regexChecking = .ok idx)
    (entry : RouteEntry) :
    KeepsApart (fun t => Ready t ∧ t.collides idx.urlComplete isPrefix = false)
      (insertParamPrefix rx idx.urlComplete entry isPrefix) := by
  intro t ⟨⟨tidy, apart⟩, free⟩
  rw [after_insertParamPrefix, (HttpEndpoint.make_segments parsed).1]
  rw [(HttpEndpoint.make_ok parsed).1] at free
  have inserted := @RouteTable.Apart.insertTrie rx t apart tidy path clean isPrefix free entry
  exact ⟨fun _ _ => inserted, fun _ _ => inserted⟩

theorem placeOf_exact (parsed : HttpEndpoint.make rx path false true cfg.regexChecking = .ok idx)
    (plain : idx.urlPars = []) : placeOf path = .key idx.urlComplete := by
  rw [placeOf_make parsed, if_neg (by simpa using plain)]

theorem plain_of_tier {tier : RouteTier} (classified : classifyRouteTier rx idx = .ok tier)
    (other : tier ≠ .radix) : idx.urlPars = [] := by
  by_contra pars
  rw [classifyRouteTier_radix pars] at classified
  cases classified
  exact other rfl

theorem apart_emplaceExact (clean : NoEmptySegment path)
    (parsed : HttpEndpoint.make rx path false true cfg.regexChecking = .ok idx)
    (tier : classifyRouteTier rx idx = .ok .exact) (entry : RouteEntry) :
    KeepsApart (fun t => Ready t ∧ t.collides idx.urlComplete false = false)
      (emplaceExact idx.urlComplete entry) := by
  refine spec_modify fun t ⟨⟨tidy, apart⟩, free⟩ => ?_
  split
  · exact apart
  · exact apart.emplace tidy clean (placeOf_exact parsed (plain_of_tier tier (by simp))) free entry

theorem regex_free_of_probe {t : RouteTable} {re : Str} (plain : idx.urlPars = [])
    (tier : classifyRouteTier rx idx = .ok (.regex re))
    (missing : t.findV2EntryByPath rx idx = none) :
    ∀ rr ∈ t.regexRoutes, rr.urlComplete ≠ idx.urlComplete := by
  have compiled : idx.regCompiled = true := by
    by_contra raw
    rw [classifyRouteTier, if_neg (by simpa using plain), if_neg raw] at tier
    cases tier
  unfold RouteTable.findV2EntryByPath at missing
  dsimp only at missing
  rw [if_neg (by simpa using plain)] at missing
  cases inMap : t.exactRoutes.lookup idx.urlComplete with
  | some entry => simp [inMap] at missing
  | none => simpa [inMap, compiled] using missing

theorem apart_placeV2Route {family : Bool} (clean : NoEmptySegment path)
    (parsed : HttpEndpoint.make rx path family true cfg.regexChecking = .ok idx)
    (entry : RouteEntry) :
    KeepsApart (fun t => (Ready t ∧ t.collides idx.urlComplete family = false) ∧
      outcome (rejectDuplicateV2Entry rx idx family) t = .ok ()) (placeV2Route rx idx entry family) := by
  unfold placeV2Route
  cases family with
  | true =>
    rw [if_pos rfl]
    exact spec_pre (apart_insertParamPrefix clean parsed entry) fun _ ready => ready.1
  | false =>
    rw [if_neg (by simp)]
    cases tier : classifyRouteTier rx idx with
    | error e => exact spec_throw fun _ ready => ready.1.1.2
    | ok kind =>
      cases kind with
      | radix => exact spec_pre (apart_insertParamPrefix clean parsed entry) fun _ ready => ready.1
      | exact => exact spec_pre (apart_emplaceExact clean parsed tier entry) fun _ ready => ready.1
      | regex re =>
        refine spec_modify fun t ⟨⟨⟨_, apart⟩, _⟩, unique⟩ => apart.push ?_
        rcases rejectDuplicateV2Entry_ok unique with ⟨family, -⟩ | ⟨-, other⟩
        · cases family
        · simpa [tier] using other

theorem apart_registerV2Route {family : Bool} (clean : NoEmptySegment path)
    (parsed : HttpEndpoint.make rx path family true cfg.regexChecking = .ok idx) (res : Nat) :
    KeepsApart Ready (registerV2Route rx idx res family) := by
  refine spec_bind (spec_of_unchanged (steps_rejectTerminusCollision _ _)
    fun _ _ ready => ready.2) fun _ => ?_
  refine spec_bind (spec_of_unchanged (steps_rejectDuplicateV2Entry rx idx family)
    fun _ _ ready => ready.1.2) fun _ => ?_
  refine spec_pre (apart_placeV2Route clean parsed _) fun t ready => ?_
  exact ⟨⟨ready.1.1, rejectTerminusCollision_ok ready.1.2⟩, ready.2⟩

theorem apart_upsertV2TableEntryLocked (clean : NoEmptySegment path)
    (parsed : HttpEndpoint.make rx path false true cfg.regexChecking = .ok idx)
    (methods : MethodSet) (shim : Handler) (fresh : Bool) :
    KeepsApart (fun t => Ready t ∧ (fresh = true → t.findV2EntryByPath rx idx = none))
      (upsertV2TableEntryLocked rx idx methods shim fresh) := by
  unfold upsertV2TableEntryLocked
  split
  · refine spec_bind (spec_of_unchanged (steps_rejectTerminusCollision _ _)
      fun _ _ ready => ready.1.2) fun _ => ?_
    refine spec_bind (spec_of_unchanged steps_get fun _ _ ready => ready.1.1.2) fun t => ?_
    refine spec_pre (apart_insertParamPrefix clean parsed _) fun u ready => ?_
    exact ⟨ready.1.1.1, rejectTerminusCollision_ok ready.1.2⟩
  · rename_i plain
    split
    · rename_i new
      unfold insertFreshV2Entry
      cases tier : classifyRouteTier rx idx with
      | error e => exact spec_throw fun _ ready => ready.1.2
      | ok kind =>
        cases kind with
        | radix => exact spec_pure fun _ ready => ready.1.2
        | exact =>
          refine spec_bind (spec_of_unchanged (steps_rejectTerminusCollision _ _)
            fun _ _ ready => ready.1.2) fun _ => ?_
          refine spec_pre (apart_emplaceExact clean parsed tier _) fun t ready => ?_
          exact ⟨ready.1.1, rejectTerminusCollision_ok ready.2⟩
        | regex re =>
          refine spec_modify fun t ⟨⟨_, apart⟩, missing⟩ => apart.push ?_
          exact regex_free_of_probe (not_not.mp plain) tier (missing new)
    · exact spec_modify fun t ready => ready.1.2.update idx.urlComplete methods shim

def Registry.Apart (r : Registry) : Prop := r.table.Apart

theorem apart_onTable {P : RouteTable → Prop} {x : TableM Unit} (keeps : KeepsApart P x)
    {r : Registry} (start : P r.table) : (after (onTable x) r).Apart := by
  rw [after_onTable]
  exact spec_after keeps start

variable {r : Registry}

theorem apart_check_bind {α : Type} {x : Except RegistrationError α} {f : α → RegistryM Unit}
    (apart : r.Apart) (rest : ∀ a, x = .ok a → (after (f a) r).Apart) :
    (after (check x >>= f) r).Apart := by
  cases x with
  | error e => exact apart
  | ok a => exact rest a rfl

theorem apart_onMethods (sane : r.Sane rx cfg) (apart : r.Apart) (clean : NoEmptySegment path)
    (methods : MethodSet) (handler : Option Nat) :
    (after (onMethods rx cfg methods path handler) r).Apart := by
  refine apart_check_bind apart fun h _ => ?_
  refine apart_check_bind apart fun idx parsed => ?_
  rcases prepareOrCreateLambdaShim_cases rx idx methods r with
    ⟨id, fresh, shims, chosen, result, state⟩ | ⟨-, ⟨e, refused⟩, state⟩
  · rw [(bind_of_ok r result).2, state]
    refine @apart_onTable _ _ (apart_upsertV2TableEntryLocked clean parsed methods (.lambda id) fresh)
      ⟨r.table, shims.modify id (LambdaResource.fill methods h)⟩ ⟨⟨sane.table.1, apart⟩, ?_⟩
    intro new
    cases chosen with
    | new missing => exact missing
    | existing => cases new
  · rw [(bind_of_error r refused).2, state]
    exact apart

theorem apart_removeParamPrefixLocked (key : Str) (isPrefix : Bool) :
    KeepsApart Ready (removeParamPrefixLocked key isPrefix) :=
  spec_modify fun _ ready => ready.2.removeTrie ready.1 (tokenizeUrl key) isPrefix

theorem apart_mutate (c : RouteCall) (sane : r.Sane rx cfg) (apart : r.Apart)
    (clean : NoEmptySegment c.path) : (after (c.mutate rx cfg) r).Apart := by
  have ready : Ready r.table := ⟨sane.table.1, apart⟩
  have registers : ∀ res family, (after (registerImpl rx cfg c.path res family) r).Apart := by
    intro res family
    refine apart_check_bind apart fun id _ => ?_
    exact apart_check_bind apart fun idx parsed =>
      apart_onTable (apart_registerV2Route clean parsed id) ready
  have routes := fun methods handler => apart_onMethods sane apart clean methods handler
  cases c with
  | registerPath path res => exact registers res false
  | registerPrefix path res => exact registers res true
  | on forwarder path handler => exact routes _ handler
  | routeSet methods path handler => exact routes methods handler
  | routeMethod m path handler =>
    by_cases sentinel : m = .count_
    · rw [RouteCall.mutate, if_pos sentinel]
      exact apart
    · rw [RouteCall.mutate, if_neg sentinel]
      exact routes _ handler
  | unregisterPath path =>
    refine apart_check_bind apart fun idx _ => ?_
    dsimp only
    split
    · exact apart_onTable (apart_removeParamPrefixLocked _ _) ready
    · split
      · exact apart_onTable (apart_removeParamPrefixLocked _ _) ready
      · exact apart_onTable (spec_modify fun _ ready => ready.eraseKey idx.urlComplete) apart
  | unregisterPrefix path =>
    exact apart_check_bind apart fun idx _ =>
      apart_onTable (apart_removeParamPrefixLocked _ _) ready
  | unregisterResource path =>
    refine apart_check_bind apart fun idx _ => ?_
    have erased : KeepsApart Ready (do
        eraseExactAndRegexLocked idx.urlComplete
        removeParamPrefixLocked idx.urlComplete false
        removeParamPrefixLocked idx.urlComplete true) := by
      refine spec_bind (spec_modify (Q := fun _ => Ready) fun t ready =>
        ⟨ready.1, ready.2.eraseKey idx.urlComplete⟩) fun _ => ?_
      refine spec_bind (spec_modify (Q := fun _ => Ready) fun t ready =>
        ⟨ready.1.removeSegments false _, ready.2.removeTrie ready.1 _ false⟩) fun _ => ?_
      exact apart_removeParamPrefixLocked _ true
    exact apart_onTable erased ready

theorem apart_run {calls : List RouteCall} (sane : r.Sane rx cfg) (apart : r.Apart)
    (clean : ∀ c ∈ calls, NoEmptySegment c.path) : (r.run rx cfg calls).Apart := by
  induction calls generalizing r with
  | nil => exact apart
  | cons c calls ih =>
    exact ih (sane_mutate c sane) (apart_mutate c sane apart (clean c List.mem_cons_self))
      fun c listed => clean c (List.mem_cons_of_mem _ listed)

end

theorem Registry.Sane.guarded {rx : RegexEngine} {cfg : RouteConfig} {r : Registry}
    (sane : r.Sane rx cfg) (apart : r.Apart) : r.table.Guarded := by
  refine ⟨fun shape node found both => ?_, fun kv listed => ?_, fun kv listed rr member same => ?_,
    apart.texts⟩
  · rcases apart.termini shape with none | none
    · simp [TrieNode.terminusAt, found, TrieNode.terminus] at none
      simp [none] at both
    · simp [TrieNode.terminusAt, found, TrieNode.terminus] at none
      simp [none] at both
  · rw [TrieNode.hasTerminusAt_eq sane.table.1, apart.exactKeys kv listed]
    rfl
  · exact sane.tiered.regex_free (sane.tiered.1 kv listed) rr member same.symm

/-- After any calls on paths without empty segments, those that throw included,
    exact and prefix registrations share no path. -/
theorem registrations_never_share_a_path (rx : RegexEngine) (cfg : RouteConfig)
    (calls : List RouteCall) (clean : ∀ c ∈ calls, NoEmptySegment c.path) :
    (Registry.empty.run rx cfg calls).table.Guarded :=
  (sane_run calls sane_empty).guarded (apart_run sane_empty RouteTable.apart_empty clean)

def rivalCalls : List RouteCall :=
  [.registerPath "/a".toList (some 1), .registerPrefix "/a".toList (some 2),
   .registerPrefix "/b/\x7bid\x7d".toList (some 3), .on .onGet "/b/\x7bname\x7d".toList (some 4),
   .unregisterPath "/a".toList, .registerPrefix "/a/".toList (some 5)]

theorem rival_calls_share_no_path :
    (Registry.empty.run Server.literalEngine ⟨false, false⟩ rivalCalls).table.Guarded :=
  registrations_never_share_a_path Server.literalEngine ⟨false, false⟩ rivalCalls (by decide)

end HttpServer
