import HttpServer.RegistryInvariant

/-!
Where the table keeps the exact route of a path: at the end of its pattern in
the trie when the path has a parameter, else under its key in the exact map or
the regex list. A registration that succeeds writes one of these places and
leaves the others alone.
-/
namespace HttpServer
open Effect

inductive Place where
  | pattern (shape : List (Option Str))
  | key (text : Str)
  deriving DecidableEq

def placeOf (path : Str) : Place :=
  if (tokenizeUrl path).any isWildcardSegment then .pattern (shapeOf (tokenizeUrl path))
  else .key (normalizeUrlComplete path)

namespace RouteTable

def entryAt (t : RouteTable) : Place → Option RouteEntry
  | .pattern shape => t.paramAndPrefixRoutes.terminusAt shape false
  | .key text =>
    (t.exactRoutes.lookup text).or
      ((t.regexRoutes.find? fun rr => rr.urlComplete = text).map (·.entry))

/-- Every entry kept under a place, also one that another entry hides. -/
def Holds (t : RouteTable) : Place → RouteEntry → Prop
  | .pattern shape, entry => t.paramAndPrefixRoutes.terminusAt shape false = some entry
  | .key text, entry =>
    (text, entry) ∈ t.exactRoutes ∨ ∃ rr ∈ t.regexRoutes, rr.urlComplete = text ∧ rr.entry = entry

variable {t : RouteTable} {key : Str} {entry old : RouteEntry} {rx : RegexEngine} {segs : List Str}

theorem holds_of_entryAt {place : Place} (found : t.entryAt place = some entry) :
    t.Holds place entry := by
  cases place with
  | pattern shape => exact found
  | key text =>
    rcases Option.or_eq_some_iff.mp found with inMap | ⟨-, inList⟩
    · exact Or.inl (Assoc.mem_of_lookup inMap)
    · obtain ⟨rr, first, rfl⟩ := Option.map_eq_some_iff.mp inList
      exact Or.inr ⟨rr, List.mem_of_find?_eq_some first, by simpa using List.find?_some first, rfl⟩

structure Writes (t : RouteTable) (place : Place) (entry : RouteEntry) (t' : RouteTable) :
    Prop where
  entryAt : ∀ other, t'.entryAt other = if other = place then some entry else t.entryAt other
  holds : ∀ other found, t'.Holds other found →
    (other = place ∧ found.handler = entry.handler) ∨ t.Holds other found
  prefixes : ∀ shape, t'.paramAndPrefixRoutes.terminusAt shape true =
    t.paramAndPrefixRoutes.terminusAt shape true

theorem writes_insertTrie (entry : RouteEntry)
    (compiles : t.paramAndPrefixRoutes.firstBad rx segs = none) :
    t.Writes (.pattern (shapeOf segs)) entry (t.insertTrie rx segs entry false) := by
  have termini := TrieNode.terminusAt_insertSegments rx entry false t.paramAndPrefixRoutes segs
  refine ⟨fun other => ?_, fun other found holds => ?_, fun shape => ?_⟩
  · cases other with
    | key text => simp [RouteTable.entryAt, insertTrie]
    | pattern shape => simp [RouteTable.entryAt, insertTrie, termini, compiles]
  · cases other with
    | key text => exact Or.inr holds
    | pattern shape =>
      by_cases here : shape = shapeOf segs
      · simp only [Holds, insertTrie, termini, compiles, here, and_self, if_true,
          Option.some.injEq] at holds
        exact Or.inl ⟨by rw [here], by rw [holds]⟩
      · simp only [Holds, insertTrie, termini, here, false_and, and_false, if_false] at holds
        exact Or.inr holds
  · simp [insertTrie, termini]

theorem writes_key {t' : RouteTable} (trie : t'.paramAndPrefixRoutes = t.paramAndPrefixRoutes)
    (entryAt : ∀ text, t'.entryAt (.key text) =
      if text = key then some entry else t.entryAt (.key text))
    (holds : ∀ text found, t'.Holds (.key text) found →
      (text = key ∧ found.handler = entry.handler) ∨ t.Holds (.key text) found) :
    t.Writes (.key key) entry t' := by
  refine ⟨fun other => ?_, fun other found held => ?_, fun shape => by rw [trie]⟩
  · cases other with
    | pattern shape => rw [RouteTable.entryAt, trie, if_neg Place.noConfusion, RouteTable.entryAt]
    | key text => simpa only [Place.key.injEq] using entryAt text
  · cases other with
    | pattern shape =>
      rw [Holds, trie] at held
      exact Or.inr held
    | key text => simpa only [Place.key.injEq] using holds text found held

theorem writes_emplace (entry : RouteEntry) (free : t.exactRoutes.lookup key = none) :
    t.Writes (.key key) entry { t with exactRoutes := t.exactRoutes ++ [(key, entry)] } := by
  refine writes_key rfl (fun text => ?_) fun text found holds => ?_
  · by_cases here : text = key
    · simp [RouteTable.entryAt, List.lookup_append, here, free]
    · simp [RouteTable.entryAt, List.lookup_append, Assoc.lookup_cons_if, here, Ne.symm here]
  · rcases holds with inMap | inList
    · rcases List.mem_append.mp inMap with old | new
      · exact Or.inr (Or.inl old)
      · cases List.mem_singleton.mp new
        exact Or.inl ⟨rfl, rfl⟩
    · exact Or.inr (Or.inr inList)

theorem writes_push {t : RouteTable} {rr : RegexRoute}
    (noExact : t.exactRoutes.lookup rr.urlComplete = none)
    (free : ∀ old ∈ t.regexRoutes, old.urlComplete ≠ rr.urlComplete) :
    t.Writes (.key rr.urlComplete) rr.entry { t with regexRoutes := t.regexRoutes ++ [rr] } := by
  refine writes_key rfl (fun text => ?_) fun text found holds => ?_
  · by_cases here : text = rr.urlComplete
    · have absent : (t.regexRoutes.find? fun old => old.urlComplete = rr.urlComplete) = none := by
        simpa using free
      simp [RouteTable.entryAt, List.find?_append, here, noExact, absent]
    · simp [RouteTable.entryAt, List.find?_append, here, Ne.symm here]
  · rcases holds with inMap | ⟨found', listed, rfl, rfl⟩
    · exact Or.inr (Or.inl inMap)
    · rcases List.mem_append.mp listed with old | new
      · exact Or.inr (Or.inr ⟨found', old, rfl, rfl⟩)
      · rw [List.mem_singleton.mp new]
        exact Or.inl ⟨rfl, rfl⟩

structure SameRoutes (t t' : RouteTable) : Prop where
  entryAt : ∀ place, t'.entryAt place = t.entryAt place
  holds : ∀ place found, t'.Holds place found → t.Holds place found
  prefixes : ∀ shape, t'.paramAndPrefixRoutes.terminusAt shape true =
    t.paramAndPrefixRoutes.terminusAt shape true

theorem sameRoutes_refl (t : RouteTable) : t.SameRoutes t :=
  ⟨fun _ => rfl, fun _ _ holds => holds, fun _ => rfl⟩

theorem sameRoutes_insertTrie (entry : RouteEntry) (isPrefix : Bool)
    (bad : t.paramAndPrefixRoutes.firstBad rx segs ≠ none) :
    t.SameRoutes (t.insertTrie rx segs entry isPrefix) := by
  have termini : ∀ shape kind,
      (t.insertTrie rx segs entry isPrefix).paramAndPrefixRoutes.terminusAt shape kind =
        t.paramAndPrefixRoutes.terminusAt shape kind := by
    intro shape kind
    rw [insertTrie, TrieNode.terminusAt_insertSegments, if_neg fun written => bad written.1]
  refine ⟨fun place => ?_, fun place found holds => ?_, fun shape => termini shape true⟩
  · cases place with
    | pattern shape => exact termini shape false
    | key text => rfl
  · cases place with
    | pattern shape => exact (termini shape false).symm.trans holds
    | key text => exact holds

theorem find_updateFirst {hit : RegexRoute → Bool} {f : RegexRoute → RegexRoute} {key : Str}
    {rrs : List RegexRoute} {rr : RegexRoute}
    (sole : ∀ rr ∈ rrs, hit rr = true → rr.urlComplete = key)
    (keeps : ∀ rr, (f rr).urlComplete = rr.urlComplete)
    (first : (rrs.find? fun rr => rr.urlComplete = key) = some rr) (found : hit rr = true)
    (text : Str) :
    (updateFirst hit f rrs).find? (fun rr => rr.urlComplete = text) =
      if text = key then some (f rr) else rrs.find? fun rr => rr.urlComplete = text := by
  induction rrs with
  | nil => simp at first
  | cons head rest ih =>
    by_cases here : head.urlComplete = key
    · have same : head = rr := by simpa [here] using first
      subst same
      rw [updateFirst, if_pos found]
      by_cases asked : text = key
      · simp [keeps, here, asked]
      · simp [keeps, here, asked, Ne.symm asked]
    · have miss : ¬ hit head = true := fun found => here (sole head (by simp) found)
      have tail := ih (fun rr listed => sole rr (by simp [listed])) (by simpa [here] using first)
      rw [updateFirst, if_neg miss]
      by_cases front : head.urlComplete = text
      · have other : text ≠ key := fun same => here (front.trans same)
        simp [front, other]
      · simp only [List.find?_cons, front, decide_false]
        exact tail

theorem writes_updateExact (methods : MethodSet) (found : t.exactRoutes.lookup key = some old) :
    t.Writes (.key key) ⟨old.methods.union methods, old.handler, false⟩
      { t with exactRoutes := t.exactRoutes.map fun kv =>
        if kv.1 = key then (kv.1, mergeInto methods old.handler kv.2) else kv } := by
  refine writes_key rfl (fun text => ?_) fun text found' holds => ?_
  · have looked := Assoc.lookup_map_at (mergeInto methods old.handler) t.exactRoutes key text
    simp only [RouteTable.entryAt]
    rw [looked]
    by_cases here : text = key
    · rw [if_pos here, if_pos here, here, found]
      rfl
    · rw [if_neg here, if_neg here]
  · rcases holds with listed | inList
    · obtain ⟨kv, member, changed⟩ := List.mem_map.mp listed
      by_cases here : kv.1 = key
      · rw [if_pos here] at changed
        cases changed
        exact Or.inl ⟨here, rfl⟩
      · rw [if_neg here] at changed
        subst changed
        exact Or.inr (Or.inl member)
    · exact Or.inr (Or.inr inList)

theorem writes_updateRegex {rr : RegexRoute} (methods : MethodSet)
    (absent : t.exactRoutes.lookup key = none)
    (first : (t.regexRoutes.find? fun rr => rr.urlComplete = key) = some rr)
    (hits : ∀ other ∈ t.regexRoutes, decide (other.entry.handler = rr.entry.handler) = true →
      other.urlComplete = key) :
    t.Writes (.key key) ⟨rr.entry.methods.union methods, rr.entry.handler, false⟩
      { t with regexRoutes := updateFirst (fun other => decide (other.entry.handler =
        rr.entry.handler)) (fun other => { other with
          entry := mergeInto methods rr.entry.handler other.entry }) t.regexRoutes } := by
  refine writes_key rfl (fun text => ?_) fun text found holds => ?_
  · have looked := @find_updateFirst _
      (fun rr' => { rr' with entry := mergeInto methods rr.entry.handler rr'.entry }) key _ rr
      hits (fun _ => rfl) first (by simp) text
    simp only [RouteTable.entryAt]
    rw [looked]
    by_cases here : text = key
    · rw [if_pos here, if_pos here, here, absent]
      rfl
    · rw [if_neg here, if_neg here]
  · rcases holds with listed | ⟨found', listed, rfl, rfl⟩
    · exact Or.inr (Or.inl listed)
    · rcases mem_updateFirst listed with kept | ⟨before, member, hit, rfl⟩
      · exact Or.inr (Or.inr ⟨found', kept, rfl, rfl⟩)
      · exact Or.inl ⟨hits before member hit, rfl⟩

theorem writes_update (methods : MethodSet) (stored : t.entryAt (.key key) = some old)
    (sole : ∀ place entry, t.Holds place entry → entry.handler = old.handler → place = .key key) :
    t.Writes (.key key) ⟨old.methods.union methods, old.handler, false⟩
      (after (updateExistingV2Entry key methods old.handler) t) := by
  change t.Writes _ _ (ite _ _ _)
  by_cases inMap : (t.exactRoutes.lookup key).isSome = true
  · rw [if_pos inMap]
    obtain ⟨entry, found⟩ := Option.isSome_iff_exists.mp inMap
    have same : entry = old := by simpa [RouteTable.entryAt, found] using stored
    exact writes_updateExact methods (same ▸ found)
  · rw [if_neg inMap]
    have absent : t.exactRoutes.lookup key = none := Option.not_isSome_iff_eq_none.mp inMap
    have inList : ((t.regexRoutes.find? fun rr => rr.urlComplete = key).map (·.entry)) =
        some old := by
      simpa [RouteTable.entryAt, absent] using stored
    obtain ⟨rr, first, rfl⟩ := Option.map_eq_some_iff.mp inList
    refine writes_updateRegex methods absent first fun other listed same => ?_
    have place := sole (.key other.urlComplete) other.entry (Or.inr ⟨other, listed, rfl, rfl⟩)
      (of_decide_eq_true same)
    exact Place.key.inj place

end RouteTable

section
variable {rx : RegexEngine} {cfg : RouteConfig} {t t' : RouteTable} {path : Str}
  {idx : HttpEndpoint}

theorem placeOf_make (parsed : HttpEndpoint.make rx path false true cfg.regexChecking = .ok idx) :
    placeOf path = if idx.urlPars ≠ [] then .pattern (shapeOf (tokenizeUrl idx.urlComplete))
      else .key idx.urlComplete := by
  obtain ⟨segments, pars⟩ := HttpEndpoint.make_segments parsed
  rw [segments, (HttpEndpoint.make_ok parsed).1]
  exact if_congr pars.symm rfl rfl

theorem Placed.writes {entry : RouteEntry} (tiered : t.Tiered rx cfg)
    (parsed : HttpEndpoint.make rx path false true cfg.regexChecking = .ok idx)
    (placed : Placed rx t idx entry false t') : t.Writes (placeOf path) entry t' := by
  rw [placeOf_make parsed]
  cases placed with
  | trie stored compiles free =>
    have pars : idx.urlPars ≠ [] := stored.resolve_left (by simp)
    rw [if_pos pars]
    exact RouteTable.writes_insertTrie entry compiles
  | exactly single tier free =>
    have plain : ¬ idx.urlPars ≠ [] := fun pars =>
      nomatch tier.symm.trans (classifyRouteTier_radix pars)
    rw [if_neg plain]
    exact RouteTable.writes_emplace entry free
  | regex re single tier free =>
    have plain : ¬ idx.urlPars ≠ [] := fun pars =>
      nomatch tier.symm.trans (classifyRouteTier_radix pars)
    have own : KeyTier rx cfg idx.urlComplete (.regex re) := ⟨path, idx, parsed, rfl, tier⟩
    rw [if_neg plain]
    exact @RouteTable.writes_push t ⟨idx.urlComplete, re, entry⟩
      ((Assoc.lookup_eq_none_iff_keys _ _).mpr (tiered.exact_free own (by simp))) free

def priorMethods (entry : Option RouteEntry) : MethodSet := entry.elim .noMethods (·.methods)

theorem inherited_eq (pars : idx.urlPars ≠ []) :
    t.inherited rx idx.urlComplete = priorMethods (t.findV2EntryByPath rx idx) := by
  unfold RouteTable.inherited RouteTable.findV2EntryByPath
  dsimp only
  rw [if_pos pars]
  cases t.paramAndPrefixRoutes.find rx idx.urlComplete with
  | none => rfl
  | some m =>
    dsimp only
    split
    · rfl
    · rfl

theorem Upserted.writes {methods : MethodSet} {id : Nat} {fresh : Bool}
    (parsed : HttpEndpoint.make rx path false true cfg.regexChecking = .ok idx)
    (probe : t.findV2EntryByPath rx idx = t.entryAt (placeOf path))
    (new : fresh = true → t.entryAt (placeOf path) = none)
    (old : fresh = false → ∃ entry, t.entryAt (placeOf path) = some entry ∧
      entry.handler = .lambda id)
    (sole : ∀ place entry, t.Holds place entry → entry.handler = .lambda id →
      fresh = false → place = placeOf path)
    (upserted : Upserted rx t idx methods (.lambda id) fresh t') :
    t.Writes (placeOf path)
      ⟨(priorMethods (t.entryAt (placeOf path))).union methods, .lambda id, false⟩ t' := by
  have zero : MethodSet.noMethods.union methods = methods := by
    simp [MethodSet.union, MethodSet.noMethods]
  cases upserted with
  | trie stored compiles free =>
    rw [inherited_eq stored, probe]
    have place := placeOf_make parsed
    rw [if_pos stored] at place
    rw [place]
    exact RouteTable.writes_insertTrie _ compiles
  | exactly plain isNew tier free =>
    have none := new isNew
    have place := placeOf_make parsed
    rw [if_neg (by simpa using plain)] at place
    rw [none, priorMethods, Option.elim_none, zero, place]
    rw [place] at none
    have absent : t.exactRoutes.lookup idx.urlComplete = .none :=
      (Option.or_eq_none_iff.mp none).1
    change t.Writes _ _ (ite _ _ _)
    rw [if_neg (by simp [absent])]
    exact RouteTable.writes_emplace _ absent
  | regex re plain isNew tier =>
    have none := new isNew
    have place := placeOf_make parsed
    rw [if_neg (by simpa using plain)] at place
    rw [none, priorMethods, Option.elim_none, zero, place]
    rw [place] at none
    obtain ⟨noExact, noRegex⟩ := Option.or_eq_none_iff.mp none
    exact @RouteTable.writes_push t ⟨idx.urlComplete, re, ⟨methods, .lambda id, false⟩⟩ noExact
      (by simpa using noRegex)
  | update plain isOld =>
    obtain ⟨entry, stored, handler⟩ := old isOld
    have place := placeOf_make parsed
    rw [if_neg (by simpa using plain)] at place
    rw [stored, priorMethods, Option.elim_some, ← handler, place]
    rw [place] at stored
    exact RouteTable.writes_update methods stored fun other found holds same =>
      place ▸ sole other found holds (same.trans handler) isOld

end

-- The probe of `on_*` looks the text of a path up as if it were a request.
def NoEmptySegment (path : Str) : Prop := [] ∉ poppedSegments path

instance decidableNoEmptySegment (path : Str) : Decidable (NoEmptySegment path) :=
  inferInstanceAs (Decidable (_ ∉ _))

/-- Read as a request, the text of the pattern descends to the exact route of the
    pattern itself, or to none when there is none. -/
def TrieNode.ReadsBack {T : Type} (rx : RegexEngine) (root : TrieNode T) (segs : List Str) : Prop :=
  ((root.descend rx segs).bind fun shape => root.terminusAt shape false) =
    root.terminusAt (shapeOf segs) false

instance decidableReadsBack {T : Type} [DecidableEq T] (rx : RegexEngine) (root : TrieNode T)
    (segs : List Str) : Decidable (root.ReadsBack rx segs) :=
  inferInstanceAs (Decidable (_ = _))

variable {path : Str}

theorem tokenizeUrl_eq_popped (clean : NoEmptySegment path) :
    tokenizeUrl path = poppedSegments path := by
  have skip : tokenizeUrl path = tokenizeUrl (skipLeadingSlash path) := by
    unfold skipLeadingSlash
    split
    · simp [tokenizeUrl, stringSplit]
    · rfl
  rw [skip, tokenizeUrl, stringSplit, if_pos rfl]
  exact List.filter_eq_self.mpr fun seg listed =>
    decide_eq_true fun empty => clean (empty ▸ listed)

theorem popped_normalizeUrlComplete (clean : NoEmptySegment path) :
    poppedSegments (normalizeUrlComplete path) = tokenizeUrl path := by
  rw [normalizeUrlComplete_eq, tokenizeUrl_eq_popped clean]
  exact Fields.fields_intercalate '/' _ (Fields.sep_not_mem_fields '/' _)
    fun seg listed empty => clean (empty ▸ listed)

theorem any_wildcard_iff_shape (segs : List Str) :
    segs.any isWildcardSegment = true ↔ none ∈ shapeOf segs := by
  induction segs with
  | nil => simp
  | cons seg segs ih =>
    rw [List.any_cons, Bool.or_eq_true, ih, shapeOf_cons, List.mem_cons]
    cases wild : isWildcardSegment seg with
    | true => simp [slotOf_wildcard wild]
    | false => simp [slotOf_literal wild]

theorem shapeOf_plain {segs : List Str} (plain : ¬ segs.any isWildcardSegment = true) :
    shapeOf segs = segs.map some := by
  induction segs with
  | nil => rfl
  | cons seg segs ih =>
    simp only [List.any_cons, Bool.or_eq_true, not_or, Bool.not_eq_true] at plain
    rw [shapeOf_cons, slotOf_literal plain.1, ih (by simpa using plain.2), List.map_cons]

theorem placeOf_eq_iff {other : Str} (clean : NoEmptySegment path)
    (cleanOther : NoEmptySegment other) :
    placeOf path = placeOf other ↔ shapeOf (tokenizeUrl path) = shapeOf (tokenizeUrl other) := by
  constructor
  · intro same
    unfold placeOf at same
    split at same
    · split at same
      · exact Place.pattern.inj same
      · cases same
    · split at same
      · cases same
      · rw [← tokenizeUrl_normalizeUrlComplete path, Place.key.inj same,
          tokenizeUrl_normalizeUrlComplete]
  · intro same
    have kind : (tokenizeUrl path).any isWildcardSegment = true ↔
        (tokenizeUrl other).any isWildcardSegment = true := by
      rw [any_wildcard_iff_shape, any_wildcard_iff_shape, same]
    unfold placeOf
    by_cases wild : (tokenizeUrl path).any isWildcardSegment = true
    · rw [if_pos wild, if_pos (kind.mp wild), same]
    · have wild' := fun w => wild (kind.mpr w)
      rw [if_neg wild, if_neg wild', normalizeUrlComplete_eq, normalizeUrlComplete_eq,
        ← tokenizeUrl_eq_popped clean, ← tokenizeUrl_eq_popped cleanOther]
      rw [shapeOf_plain wild, shapeOf_plain wild'] at same
      rw [(List.map_inj_right fun _ _ => Option.some.inj).mp same]

/-- Without prefix routes the probe sees what is kept at the path's place, when
    its pattern reads back. -/
theorem findV2EntryByPath_eq {rx : RegexEngine} {cfg : RouteConfig} {t : RouteTable}
    {idx : HttpEndpoint} (tiered : t.Tiered rx cfg)
    (exactOnly : ∀ shape, t.paramAndPrefixRoutes.terminusAt shape true = none)
    (clean : NoEmptySegment path)
    (parsed : HttpEndpoint.make rx path false true cfg.regexChecking = .ok idx)
    (reads : (tokenizeUrl path).any isWildcardSegment = true →
      t.paramAndPrefixRoutes.ReadsBack rx (tokenizeUrl path)) :
    t.findV2EntryByPath rx idx = t.entryAt (placeOf path) := by
  obtain ⟨segments, pars⟩ := HttpEndpoint.make_segments parsed
  obtain ⟨complete, compiled, -⟩ := HttpEndpoint.make_ok parsed
  rw [placeOf_make parsed]
  unfold RouteTable.findV2EntryByPath
  dsimp only
  by_cases wild : idx.urlPars ≠ []
  · rw [if_pos wild, if_pos wild, segments]
    have popped : poppedSegments idx.urlComplete = tokenizeUrl path := by
      rw [complete, popped_normalizeUrlComplete clean]
    obtain ⟨kinds, entries⟩ := @TrieNode.findSegments_of_no_prefix _ rx _ exactOnly
      (tokenizeUrl path)
    rw [show _ = _ from reads (pars.mp wild)] at entries
    rw [TrieNode.find, popped, RouteTable.entryAt, ← entries]
    cases found : t.paramAndPrefixRoutes.findSegments rx (tokenizeUrl path) with
    | none => rfl
    | some m => simp [kinds m found]
  · rw [if_neg wild, if_neg wild, RouteTable.entryAt]
    cases inMap : t.exactRoutes.lookup idx.urlComplete with
    | some entry => rfl
    | none =>
      by_cases regex : idx.regCompiled = true
      · simp [regex]
      · have tier : classifyRouteTier rx idx = .ok .exact := by
          rw [classifyRouteTier, if_neg wild, if_neg regex]
        have own : KeyTier rx cfg idx.urlComplete .exact := ⟨path, idx, parsed, rfl, tier⟩
        have absent : (t.regexRoutes.find? fun rr => rr.urlComplete = idx.urlComplete) = none := by
          simpa using tiered.regex_free own
        simp [regex, absent]

end HttpServer
