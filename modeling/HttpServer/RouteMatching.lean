import HttpServer.TrieDescent
import HttpServer.RegistrationEffects

/-!
The patterns a server has registered, kept beside it along a run, and what its
lookups have to do with them. Patterns of one shape share nodes and the nodes
keep the labels of the first of them, so a lookup honours a pattern when every
registration finds its own names and constraints on its way. The descent does
not turn back, so a lookup finds what one registered pattern matches only when
some registered pattern is reached.
-/
namespace HttpServer
open Effect LruCache Run

def RouteCall.clears (c : RouteCall) (shape : List (Option Str)) (isPrefix : Bool) : Bool :=
  match c with
  | .unregisterPath path =>
    (tokenizeUrl path).any isWildcardSegment && decide (shape = shapeOf (tokenizeUrl path)) &&
      !isPrefix
  | .unregisterPrefix path => decide (shape = shapeOf (tokenizeUrl path)) && isPrefix
  | .unregisterResource path => decide (shape = shapeOf (tokenizeUrl path))
  | _ => false

theorem RouteCall.terminusAt_prune {T : Type} (c : RouteCall) {trie : TrieNode T}
    (tidy : trie.Tidy) (shape : List (Option Str)) (isPrefix : Bool) :
    (c.prune trie).terminusAt shape isPrefix =
      if c.clears shape isPrefix then none else trie.terminusAt shape isPrefix := by
  cases c with
  | unregisterPath path =>
    by_cases wild : (tokenizeUrl path).any isWildcardSegment = true
    · simp [prune, clears, wild, TrieNode.terminusAt_removeSegments tidy]
    · simp [prune, clears, wild]
  | unregisterPrefix path => simp [prune, clears, TrieNode.terminusAt_removeSegments tidy]
  | unregisterResource path =>
    rw [prune, TrieNode.terminusAt_removeSegments (tidy.removeSegments _ _),
      TrieNode.terminusAt_removeSegments tidy, clears]
    by_cases here : shape = shapeOf (tokenizeUrl path)
    · cases isPrefix with
      | false => simp [here]
      | true => simp [here]
    · simp [here]
  | _ => rfl

theorem RouteCall.prune_keeps {T : Type} {P : TrieNode T → Prop}
    (remove : ∀ trie isPrefix segs, P trie → P (trie.removeSegments isPrefix segs))
    (c : RouteCall) {trie : TrieNode T} (start : P trie) : P (c.prune trie) := by
  cases c with
  | unregisterPath path =>
    dsimp only [prune]
    split
    · exact remove trie false _ start
    · exact start
  | unregisterPrefix path => exact remove trie true _ start
  | unregisterResource path => exact remove _ true _ (remove trie false _ start)
  | _ => exact start

theorem RouteCall.tidy_prune {T : Type} (c : RouteCall) {trie : TrieNode T} (tidy : trie.Tidy) :
    (c.prune trie).Tidy :=
  c.prune_keeps (fun _ isPrefix segs kept => kept.removeSegments isPrefix segs) tidy

theorem RouteCall.carries_prune {T : Type} (c : RouteCall) {trie : TrieNode T} (tidy : trie.Tidy)
    {pats : List Str} (carried : trie.carries pats = true) : (c.prune trie).carries pats = true :=
  (@RouteCall.prune_keeps T (fun trie => trie.Tidy ∧ trie.carries pats = true)
    (fun _ isPrefix segs kept => ⟨kept.1.removeSegments isPrefix segs,
      TrieNode.carries_removeSegments kept.1 isPrefix kept.2 segs⟩) c trie ⟨tidy, carried⟩).2

theorem RouteCall.idle_of_registration {call : RouteCall} (registers : call.isRegistration) :
    (∀ trie : TrieNode RouteEntry, call.prune trie = trie) ∧
      ∀ shape isPrefix, call.clears shape isPrefix = false := by
  cases call with
  | unregisterPath path => cases registers
  | unregisterPrefix path => cases registers
  | unregisterResource path => cases registers
  | _ => exact ⟨fun _ => rfl, fun _ _ => rfl⟩

structure Tracked where
  server : Server
  registered : List (List Str × Bool)

namespace Tracked

def fresh (capacity : Nat) (positive : 0 < capacity) : Tracked :=
  ⟨Server.fresh capacity positive, []⟩

def trie (s : Tracked) : TrieNode RouteEntry := s.server.registry.table.paramAndPrefixRoutes

def record (registered : List (List Str × Bool)) (c : RouteCall) : List (List Str × Bool) :=
  match c.pattern with
  | some p => p :: registered
  | none => registered.filter fun p => !c.clears (shapeOf p.1) p.2

def step (rx : RegexEngine) (cfg : RouteConfig) (s : Tracked) (op : RouteOp) : Tracked :=
  { server := s.server.step rx cfg op
    registered := match op with
      | .call c => record s.registered c
      | .lookup _ _ => s.registered }

def Succeeds (rx : RegexEngine) (cfg : RouteConfig) (s : Tracked) : RouteOp → Prop
  | .call c => s.server.registry.Succeeds rx cfg c
  | .lookup _ _ => True

instance decidableSucceeds (rx : RegexEngine) (cfg : RouteConfig) (s : Tracked) (op : RouteOp) :
    Decidable (s.Succeeds rx cfg op) :=
  match op with
  | .call c => inferInstanceAs (Decidable (s.server.registry.Succeeds rx cfg c))
  | .lookup _ _ => inferInstanceAs (Decidable True)

structure Sound (rx : RegexEngine) (s : Tracked) : Prop where
  coherent : s.server.Coherent rx
  tidy : s.trie.Tidy
  stored : ∀ p ∈ s.registered, (s.trie.terminusAt (shapeOf p.1) p.2).isSome
  known : ∀ shape isPrefix, (s.trie.terminusAt shape isPrefix).isSome →
    ∃ p ∈ s.registered, shapeOf p.1 = shape ∧ p.2 = isPrefix

variable {rx : RegexEngine} {cfg : RouteConfig}

theorem sound_fresh (rx : RegexEngine) (capacity : Nat) (positive : 0 < capacity) :
    (fresh capacity positive).Sound rx where
  coherent := Lru.holds_empty capacity positive
  tidy := TrieNode.tidy_leaf rfl rfl
  stored := by simp [fresh]
  known := by
    intro shape isPrefix some_
    have bare : (fresh capacity positive).trie.terminusAt shape isPrefix = none :=
      TrieNode.terminusAt_bare TrieNode.next_empty (fun kind => by cases kind <;> rfl) shape isPrefix
    simp [bare] at some_

theorem step_call {s : Tracked} {c : RouteCall} (ok : s.Succeeds rx cfg (.call c)) :
    let t := s.server.registry.table
    let t' := (s.step rx cfg (.call c)).server.registry.table
    (s.step rx cfg (.call c)).server.Coherent rx ∧
      c.pattern.elim
        (t'.paramAndPrefixRoutes = c.prune s.trie ∧ (c.isRegistration → t.Grows t')) fun p =>
          s.trie.firstBad rx p.1 = none ∧ ∃ entry, t' = t.insertTrie rx p.1 entry p.2 := by
  intro t t'
  have state : (s.step rx cfg (.call c)).server =
      ⟨after (c.mutate rx cfg) s.server.registry, s.server.cache.clear⟩ := by
    have result : outcome (c.mutate rx cfg) s.server.registry = .ok () := ok
    change s.server.call rx cfg c = _
    simp [Server.call, result]
  have table : t' = (after (c.mutate rx cfg) s.server.registry).table := by
    simp only [t', state]
  refine ⟨?_, ?_⟩
  · rw [state]
    exact Lru.holds_clear
  · rw [table]
    exact RouteCall.mutate_stores ok

theorem sound_step (s : Tracked) (op : RouteOp) (sound : s.Sound rx)
    (ok : s.Succeeds rx cfg op) : (s.step rx cfg op).Sound rx := by
  cases op with
  | lookup method path =>
    exact ⟨RouteTable.lookupV2_fresh sound.coherent method path, sound.tidy, sound.stored,
      sound.known⟩
  | call c =>
    obtain ⟨coherent, stored⟩ := step_call ok
    have listed : (s.step rx cfg (.call c)).registered = record s.registered c := rfl
    cases stores : c.pattern with
    | none =>
      simp only [stores, Option.elim] at stored
      have change_ : (s.step rx cfg (.call c)).trie = c.prune s.trie := stored.1
      rw [record, stores] at listed
      refine ⟨coherent, ?_, ?_, ?_⟩
      · rw [change_]
        exact c.tidy_prune sound.tidy
      · intro p member
        rw [listed] at member
        obtain ⟨old, kept⟩ := List.mem_filter.mp member
        rw [change_, c.terminusAt_prune sound.tidy, if_neg (by simpa using kept)]
        exact sound.stored p old
      · intro shape isPrefix some_
        rw [change_, c.terminusAt_prune sound.tidy] at some_
        by_cases cleared : c.clears shape isPrefix = true
        · simp [cleared] at some_
        · rw [if_neg cleared] at some_
          obtain ⟨p, old, rfl, rfl⟩ := sound.known shape isPrefix some_
          rw [listed]
          exact ⟨p, List.mem_filter.mpr ⟨old, by simpa using cleared⟩, rfl, rfl⟩
    | some p =>
      obtain ⟨segs, family⟩ := p
      simp only [stores, Option.elim] at stored
      obtain ⟨compiles, entry, table⟩ := stored
      have inserted : (s.step rx cfg (.call c)).trie =
          (s.trie.insertSegments rx entry family segs).1 :=
        congrArg RouteTable.paramAndPrefixRoutes table
      rw [record, stores] at listed
      refine ⟨coherent, ?_, ?_, ?_⟩
      · rw [inserted]
        exact sound.tidy.insertSegments rx entry family segs
      · intro q member
        rw [inserted, TrieNode.terminusAt_insertSegments]
        split
        · rfl
        · rename_i other
          rw [listed] at member
          rcases List.mem_cons.mp member with rfl | old
          · exact absurd ⟨compiles, rfl, rfl⟩ other
          · exact sound.stored q old
      · intro shape isPrefix some_
        rw [inserted, TrieNode.terminusAt_insertSegments] at some_
        rw [listed]
        split at some_
        · rename_i here
          exact ⟨(segs, family), List.mem_cons_self, here.2.1.symm, here.2.2.symm⟩
        · obtain ⟨q, old, same⟩ := sound.known shape isPrefix some_
          exact ⟨q, List.mem_cons_of_mem _ old, same⟩

/-- The call returns, and a pattern it stores finds its own names and
    constraints wherever a node is there already. -/
def Agrees (rx : RegexEngine) (cfg : RouteConfig) (s : Tracked) (op : RouteOp) : Prop :=
  s.Succeeds rx cfg op ∧
    match op with
    | .call c => (c.pattern.all fun p => s.trie.agreesWith p.1) = true
    | .lookup _ _ => True

instance decidableAgrees (rx : RegexEngine) (cfg : RouteConfig) (s : Tracked) (op : RouteOp) :
    Decidable (s.Agrees rx cfg op) :=
  match op with
  | .call c => inferInstanceAs (Decidable (s.Succeeds rx cfg (.call c) ∧ _ = true))
  | .lookup method path => inferInstanceAs (Decidable (s.Succeeds rx cfg (.lookup method path) ∧ True))

def Labelled (s : Tracked) : Prop := ∀ p ∈ s.registered, s.trie.carries p.1 = true

theorem labelled_step (s : Tracked) (op : RouteOp) (start : s.Sound rx ∧ s.Labelled)
    (ok : s.Agrees rx cfg op) :
    (s.step rx cfg op).Sound rx ∧ (s.step rx cfg op).Labelled := by
  obtain ⟨sound, labelled⟩ := start
  refine ⟨sound_step s op sound ok.1, ?_⟩
  cases op with
  | lookup method path => exact labelled
  | call c =>
    obtain ⟨-, stored⟩ := step_call ok.1
    have agrees : (c.pattern.all fun p => s.trie.agreesWith p.1) = true := ok.2
    have listed : (s.step rx cfg (.call c)).registered = record s.registered c := rfl
    intro p member
    rw [listed] at member
    cases stores : c.pattern with
    | none =>
      simp only [stores, Option.elim] at stored
      have change_ : (s.step rx cfg (.call c)).trie = c.prune s.trie := stored.1
      rw [record, stores] at member
      rw [change_]
      exact c.carries_prune sound.tidy (labelled p (List.mem_filter.mp member).1)
    | some q =>
      simp only [stores, Option.elim] at stored
      obtain ⟨compiles, entry, table⟩ := stored
      have inserted : (s.step rx cfg (.call c)).trie = (s.trie.insertSegments rx entry q.2 q.1).1 :=
        congrArg RouteTable.paramAndPrefixRoutes table
      rw [record, stores] at member
      rw [inserted]
      rcases List.mem_cons.mp member with rfl | old
      · rw [stores] at agrees
        exact TrieNode.carries_insertSegments_self rx entry p.2 compiles agrees
      · exact TrieNode.carries_insertSegments rx entry q.2 (labelled p old) q.1

theorem coldLookup_cases {t : RouteTable} {c : CanonicalPath} {entry : RouteEntry}
    {caps : Captures} (found : t.coldLookup rx c.text = some (entry, caps)) :
    (t.probeExact c.text = some entry ∧ caps = []) ∨
      (∃ shape isPrefix, TrieNode.Reaches rx t.paramAndPrefixRoutes c.segments shape isPrefix entry
        caps) ∨
      (∃ rr ∈ t.regexRoutes, rx.regexMatch c.text rr.compiledRe = true ∧ rr.entry = entry ∧
        caps = []) := by
  unfold RouteTable.coldLookup at found
  simp only [CanonicalPath.canonicalizeLookupPath_text] at found
  cases hit : t.probeExact c.text with
  | some stored =>
    simp only [hit, Option.some.injEq, Prod.mk.injEq] at found
    exact Or.inl ⟨by rw [found.1], found.2.symm⟩
  | none =>
    simp only [hit, RouteTable.walkTiers] at found
    refine Or.inr ?_
    cases walk : t.paramAndPrefixRoutes.find rx c.text with
    | some m =>
      simp only [walk, Option.map_some, RouteTable.answer, Option.some.injEq, Prod.mk.injEq] at found
      unfold TrieNode.find at walk
      rw [c.poppedSegments_text] at walk
      obtain ⟨shape, reached⟩ := TrieNode.findSegments_some walk
      rw [found.1, found.2] at reached
      exact Or.inl ⟨shape, m.isPrefixMatch, reached⟩
    | none =>
      cases scan : t.regexRoutes.find? fun rr => rx.regexMatch c.text rr.compiledRe with
      | none => simp [walk, scan] at found
      | some rr =>
        simp only [walk, scan, Option.map_some, RouteTable.answer, Option.some.injEq,
          Prod.mk.injEq] at found
        have hit := List.find?_some scan
        exact Or.inr ⟨rr, List.mem_of_find?_eq_some scan, hit, found.1, found.2.symm⟩

/-- In a run whose registrations agree on names and constraints a lookup is
    answered by the exact map, by the regex list, or by the terminus of
    registered patterns that the request matches, with their captures. -/
theorem matched_route_honours_pattern (rx : RegexEngine) (cfg : RouteConfig) (capacity : Nat)
    (positive : 0 < capacity) (ops : List RouteOp)
    (agree : Within (step rx cfg) (Agrees rx cfg) (fresh capacity positive) ops)
    (method : HttpMethod) (c : CanonicalPath) (entry : RouteEntry) (caps : Captures) :
    let s := ops.foldl (step rx cfg) (fresh capacity positive)
    let t := s.server.registry.table
    (t.lookupV2 rx s.server.cache method c.text).2.map RouteTable.answer = some (entry, caps) →
      (t.probeExact c.text = some entry ∧ caps = []) ∨
      (∃ shape isPrefix, t.paramAndPrefixRoutes.terminusAt shape isPrefix = some entry ∧
        (∃ p ∈ s.registered, shapeOf p.1 = shape ∧ p.2 = isPrefix) ∧
        ∀ p ∈ s.registered, shapeOf p.1 = shape → p.2 = isPrefix →
          patternMatch rx p.2 p.1 c.segments = some caps) ∨
      (∃ rr ∈ t.regexRoutes, rx.regexMatch c.text rr.compiledRe = true ∧ rr.entry = entry ∧
        caps = []) := by
  intro s t found
  have start : (fresh capacity positive).Sound rx ∧ (fresh capacity positive).Labelled :=
    ⟨sound_fresh rx capacity positive, by simp [Labelled, fresh]⟩
  obtain ⟨sound, labelled⟩ : s.Sound rx ∧ s.Labelled := Run.invariant labelled_step start agree
  rw [RouteTable.lookupV2_answer sound.coherent method c.text] at found
  rcases coldLookup_cases found with exactly | ⟨shape, isPrefix, reached⟩ | regex
  · exact Or.inl exactly
  · refine Or.inr (Or.inl ⟨shape, isPrefix, reached.terminusAt, ?_, ?_⟩)
    · exact sound.known shape isPrefix (Option.isSome_iff_exists.mpr ⟨entry, reached.terminusAt⟩)
    · rintro p listed rfl rfl
      obtain ⟨last, walk, -, whole⟩ := reached
      exact TrieNode.patternMatch_of_follow walk (labelled p listed)
        fun exact_ => by simpa [shapeOf] using whole exact_
  · exact Or.inr (Or.inr regex)

def digitsEngine : RegexEngine where
  compiles _ := true
  regexMatch s re := if re = "[0-9]+".toList then s ≠ [] && s.all Char.isDigit else s = re

def itemPartPath : Str := "/a/\x7bid|[0-9]+\x7d/b".toList

def itemRun : List RouteOp :=
  [.call (.registerPath Server.itemPath (some 1)), .call (.on .onGet itemPartPath (some 7)),
   .call (.registerPrefix "/c".toList (some 2)), .lookup .get "/a/5".toList,
   .call (.unregisterPrefix "/c".toList)]

def itemState : Tracked :=
  itemRun.foldl (step digitsEngine ⟨false, false⟩) (fresh 4 (Nat.succ_pos 3))

theorem itemPart_proper : ∀ seg ∈ ["a".toList, "5".toList, "b".toList], ProperSegment seg := by
  decide

def itemPart : CanonicalPath := ⟨_, itemPart_proper⟩

theorem item_route_honours_pattern :
    (itemState.server.registry.table.probeExact itemPart.text =
        some ⟨MethodSet.noMethods.set .get, .lambda 0, false⟩ ∧
      ([("id".toList, "5".toList)] : Captures) = []) ∨
    (∃ shape isPrefix, itemState.server.registry.table.paramAndPrefixRoutes.terminusAt shape
        isPrefix = some ⟨MethodSet.noMethods.set .get, .lambda 0, false⟩ ∧
      (∃ p ∈ itemState.registered, shapeOf p.1 = shape ∧ p.2 = isPrefix) ∧
      ∀ p ∈ itemState.registered, shapeOf p.1 = shape → p.2 = isPrefix →
        patternMatch digitsEngine p.2 p.1 itemPart.segments =
          some [("id".toList, "5".toList)]) ∨
    (∃ rr ∈ itemState.server.registry.table.regexRoutes,
      digitsEngine.regexMatch itemPart.text rr.compiledRe = true ∧
      rr.entry = ⟨MethodSet.noMethods.set .get, .lambda 0, false⟩ ∧
      ([("id".toList, "5".toList)] : Captures) = []) :=
  matched_route_honours_pattern digitsEngine ⟨false, false⟩ 4 (Nat.succ_pos 3) itemRun
    (by decide +kernel) .get itemPart ⟨MethodSet.noMethods.set .get, .lambda 0, false⟩
    [("id".toList, "5".toList)] (by decide +kernel)

/-- Two patterns share a parameter node and the later one is answered under the
    name of the earlier: `/a/{x}` and `/a/{y}/b`. -/
def renamedRun : List RouteOp :=
  [.call (.registerPath "/a/{x}".toList (some 1)), .call (.registerPath "/a/{y}/b".toList (some 2))]

/-- And under its constraint, or the lack of one: `/a/{y}` and
    `/a/{id|[0-9]+}/b`. -/
def unconstrainedRun : List RouteOp :=
  [.call (.registerPath "/a/{y}".toList (some 1)), .call (.registerPath itemPartPath (some 2))]

theorem shared_parameter_node_breaks_pattern :
    (Within (step digitsEngine ⟨false, false⟩) (Succeeds digitsEngine ⟨false, false⟩)
        (fresh 4 (Nat.succ_pos 3)) renamedRun ∧
      (((renamedRun.foldl (step digitsEngine ⟨false, false⟩)
          (fresh 4 (Nat.succ_pos 3))).server.registry.table.lookupV2 digitsEngine
          (Lru.empty 4 (Nat.succ_pos 3)) .get "/a/5/b".toList).2.map RouteTable.answer =
        some (⟨.setAll, .resource 2, false⟩, [("x".toList, "5".toList)])) ∧
      patternMatch digitsEngine false (tokenizeUrl "/a/{y}/b".toList)
        (tokenizeUrl "/a/5/b".toList) = some [("y".toList, "5".toList)]) ∧
    Within (step digitsEngine ⟨false, false⟩) (Succeeds digitsEngine ⟨false, false⟩)
        (fresh 4 (Nat.succ_pos 3)) unconstrainedRun ∧
      (((unconstrainedRun.foldl (step digitsEngine ⟨false, false⟩)
          (fresh 4 (Nat.succ_pos 3))).server.registry.table.lookupV2 digitsEngine
          (Lru.empty 4 (Nat.succ_pos 3)) .get "/a/z/b".toList).2.map RouteTable.answer =
        some (⟨.setAll, .resource 2, false⟩, [("y".toList, "z".toList)])) ∧
      patternMatch digitsEngine false (tokenizeUrl itemPartPath) (tokenizeUrl "/a/z/b".toList) =
        none := by
  decide +kernel

/-- The descent of the request ends at the pattern's node: the literal segments
    are the request's, and at each parameter no literal edge has the request's
    segment and the constraint kept at the parameter's node accepts it. -/
def reached (rx : RegexEngine) (s : Tracked) (p : List Str × Bool) (segs : List Str) : Bool :=
  (s.trie.follow rx (shapeOf p.1) segs).isSome && (p.2 || decide (p.1.length = segs.length))

def Covered (rx : RegexEngine) (s : Tracked) (c : CanonicalPath) : Prop :=
  (s.server.registry.table.probeExact c.text).isSome ∨
    (∃ p ∈ s.registered, s.reached rx p c.segments) ∨
    ∃ rr ∈ s.server.registry.table.regexRoutes, rx.regexMatch c.text rr.compiledRe = true

def Found (rx : RegexEngine) (s : Tracked) (method : HttpMethod) (path : Str) : Prop :=
  (s.server.registry.table.lookupV2 rx s.server.cache method path).2.isSome

theorem find_isSome_iff {s : Tracked} (sound : s.Sound rx) (c : CanonicalPath) :
    (s.trie.find rx c.text).isSome ↔ ∃ p ∈ s.registered, s.reached rx p c.segments := by
  rw [TrieNode.find, c.poppedSegments_text, TrieNode.findSegments_isSome]
  constructor
  · rintro ⟨shape, isPrefix, entry, caps, walked⟩
    obtain ⟨p, listed, rfl, rfl⟩ := sound.known shape isPrefix
      (Option.isSome_iff_exists.mpr ⟨entry, walked.terminusAt⟩)
    obtain ⟨last, walk, -, whole⟩ := walked
    refine ⟨p, listed, ?_⟩
    cases kind : p.2 with
    | true => simp [reached, walk, kind]
    | false =>
      have length : p.1.length = c.segments.length := by simpa [shapeOf] using whole kind
      simp [reached, walk, length]
  · rintro ⟨p, listed, ends⟩
    obtain ⟨entry, stored⟩ := Option.isSome_iff_exists.mp (sound.stored p listed)
    obtain ⟨walks, whole⟩ := Bool.and_eq_true_iff.mp ends
    obtain ⟨⟨last, caps⟩, walk⟩ := Option.isSome_iff_exists.mp walks
    refine ⟨shapeOf p.1, p.2, entry, caps, last, walk, ?_, ?_⟩
    · simpa [TrieNode.terminusAt, TrieNode.nodeAt_of_follow walk] using stored
    · intro exact_
      simpa [exact_, shapeOf] using whole

theorem found_iff {s : Tracked} (sound : s.Sound rx) (method : HttpMethod) (c : CanonicalPath) :
    s.Found rx method c.text ↔ s.Covered rx c := by
  have cold := congrArg Option.isSome (RouteTable.lookupV2_answer sound.coherent method c.text)
  rw [Option.isSome_map] at cold
  have radix := find_isSome_iff sound c
  unfold Found Covered
  rw [cold, ← radix, RouteTable.coldLookup, c.canonicalizeLookupPath_text]
  cases s.server.registry.table.probeExact c.text with
  | some entry => simp
  | none =>
    unfold RouteTable.walkTiers Tracked.trie
    cases s.server.registry.table.paramAndPrefixRoutes.find rx c.text with
    | some m => simp
    | none =>
      cases scan : s.server.registry.table.regexRoutes.find? fun rr =>
          rx.regexMatch c.text rr.compiledRe with
      | some rr =>
        have hit := List.find?_some scan
        simp only [Option.map_some, Option.isSome_some, Option.isSome_none, Bool.false_eq_true,
          false_or, true_iff]
        exact ⟨rr, List.mem_of_find?_eq_some scan, hit⟩
      | none => simpa using scan

def Matched (rx : RegexEngine) (s : Tracked) (c : CanonicalPath) : Prop :=
  ∃ p ∈ s.registered, (patternMatch rx p.2 p.1 c.segments).isSome

/-- What still covers the request with one more pattern in the trie: a registered
    pattern that is reached and not shadowed, or the new one. -/
def CoveredWith (rx : RegexEngine) (s : Tracked) (new : Option (List Str × Bool))
    (c : CanonicalPath) : Prop :=
  (s.server.registry.table.probeExact c.text).isSome ∨
    (∃ p ∈ s.registered, s.reached rx p c.segments ∧
      ∀ q ∈ new, TrieNode.shadows q.1 (shapeOf p.1) c.segments = false) ∨
    (∃ q ∈ new, s.trie.admits rx q.1 c.segments ∧ (q.2 || decide (q.1.length = c.segments.length))) ∨
    ∃ rr ∈ s.server.registry.table.regexRoutes, rx.regexMatch c.text rr.compiledRe = true

theorem reached_insert {s s' : Tracked} {q : List Str × Bool} {entry : RouteEntry}
    (sound : s.Sound rx) (compiles : s.trie.firstBad rx q.1 = none)
    (inserted : s'.trie = (s.trie.insertSegments rx entry q.2 q.1).1) {p : List Str × Bool}
    (listed : p ∈ s.registered) (segs : List Str) :
    s'.reached rx p segs = (s.reached rx p segs && !TrieNode.shadows q.1 (shapeOf p.1) segs) := by
  have there : (s.trie.nodeAt (shapeOf p.1)).isSome :=
    Option.isSome_of_isSome_bind (sound.stored p listed)
  rw [reached, inserted, TrieNode.follow_insertSegments entry q.2 compiles there, reached]
  exact Bool.and_right_comm _ _ _

/-- A registration in the trie leaves the other tiers alone, and one elsewhere
    leaves the trie alone and takes nothing away. -/
theorem covered_step {s : Tracked} (sound : s.Sound rx) {call : RouteCall}
    (registers : call.isRegistration) (ok : s.Succeeds rx cfg (.call call)) {c : CanonicalPath}
    (covered : s.Covered rx c) :
    (s.step rx cfg (.call call)).Covered rx c ↔ s.CoveredWith rx call.pattern c := by
  obtain ⟨-, stored⟩ := step_call ok
  have listed : (s.step rx cfg (.call call)).registered = record s.registered call := rfl
  cases stores : call.pattern with
  | none =>
    simp only [stores, Option.elim] at stored
    obtain ⟨idle, kept⟩ := RouteCall.idle_of_registration registers
    have same : (s.step rx cfg (.call call)).trie = s.trie := stored.1.trans (idle s.trie)
    rw [record, stores] at listed
    have grows := stored.2 registers
    refine iff_of_true ?_ ?_
    · rcases covered with there | ⟨p, old, ends⟩ | ⟨rr, old, hit⟩
      · exact Or.inl (grows.keys c.text there)
      · refine Or.inr (Or.inl ⟨p, ?_, by rwa [reached, same]⟩)
        rw [listed]
        exact List.mem_filter.mpr ⟨old, by simp [kept]⟩
      · obtain ⟨rr', new, regex⟩ := grows.regexes rr old
        exact Or.inr (Or.inr ⟨rr', new, by rwa [regex]⟩)
    · rcases covered with there | ⟨p, old, ends⟩ | regex
      · exact Or.inl there
      · exact Or.inr (Or.inl ⟨p, old, ends, fun q new => by cases new⟩)
      · exact Or.inr (Or.inr (Or.inr regex))
  | some q =>
    simp only [stores, Option.elim] at stored
    obtain ⟨compiles, entry, table⟩ := stored
    have inserted : (s.step rx cfg (.call call)).trie =
        (s.trie.insertSegments rx entry q.2 q.1).1 :=
      congrArg RouteTable.paramAndPrefixRoutes table
    rw [record, stores] at listed
    have self : (s.step rx cfg (.call call)).reached rx q c.segments =
        (s.trie.admits rx q.1 c.segments && (q.2 || decide (q.1.length = c.segments.length))) := by
      rw [reached, inserted, TrieNode.follow_insertSegments_self entry q.2 compiles]
    have others : (∃ p ∈ s.registered, (s.step rx cfg (.call call)).reached rx p c.segments) ↔
        ∃ p ∈ s.registered, s.reached rx p c.segments ∧
          TrieNode.shadows q.1 (shapeOf p.1) c.segments = false := by
      refine exists_congr fun p => and_congr_right fun old => ?_
      rw [reached_insert sound compiles inserted old]
      simp
    simp only [Covered, CoveredWith, table, listed, List.mem_cons, exists_eq_or_imp, self, others]
    simp [RouteTable.insertTrie, RouteTable.probeExact, or_assoc, or_left_comm]

/-- A lookup finds what a registered pattern matches when the request is covered,
    and goes on finding it after one more registration when it is still covered
    with the new pattern. -/
theorem lookup_complete_iff (rx : RegexEngine) (cfg : RouteConfig) (capacity : Nat)
    (positive : 0 < capacity) (ops : List RouteOp)
    (ok : Within (step rx cfg) (Succeeds rx cfg) (fresh capacity positive) ops)
    (method : HttpMethod) (c : CanonicalPath) :
    let s := ops.foldl (step rx cfg) (fresh capacity positive)
    ((s.Matched rx c → s.Found rx method c.text) ↔ (s.Matched rx c → s.Covered rx c)) ∧
      ∀ call : RouteCall, call.isRegistration → s.Succeeds rx cfg (.call call) →
        ((s.Found rx method c.text → (s.step rx cfg (.call call)).Found rx method c.text) ↔
          (s.Covered rx c → s.CoveredWith rx call.pattern c)) := by
  intro s
  have sound : s.Sound rx := Run.invariant sound_step (sound_fresh rx capacity positive) ok
  refine ⟨imp_congr_right fun _ => found_iff sound method c, fun call registers succeeds => ?_⟩
  refine imp_congr_ctx (found_iff sound method c) fun covered => ?_
  rw [found_iff (sound_step s (.call call) sound succeeds) method c]
  exact covered_step sound registers succeeds covered

theorem lookup_complete_in_item_run :
    ((itemState.Matched digitsEngine itemPart →
        itemState.Found digitsEngine .get itemPart.text) ↔
      (itemState.Matched digitsEngine itemPart → itemState.Covered digitsEngine itemPart)) ∧
      ∀ call : RouteCall, call.isRegistration →
        itemState.Succeeds digitsEngine ⟨false, false⟩ (.call call) →
        ((itemState.Found digitsEngine .get itemPart.text →
            (itemState.step digitsEngine ⟨false, false⟩ (.call call)).Found digitsEngine .get
              itemPart.text) ↔
          (itemState.Covered digitsEngine itemPart →
            itemState.CoveredWith digitsEngine call.pattern itemPart)) :=
  lookup_complete_iff digitsEngine ⟨false, false⟩ 4 (Nat.succ_pos 3) itemRun (by decide +kernel) .get
    itemPart

theorem shadowed_proper : ∀ seg ∈ ["a".toList, "b".toList], ProperSegment seg := by
  decide

def shadowedPath : CanonicalPath := ⟨_, shadowed_proper⟩

/-- The request `/a/b` is found while `/{y}/b` is the only route. Registering
    `/a/{x}/c` adds a literal node for `a`, the descent takes it and ends
    there. -/
def shadowingRun : List RouteOp :=
  [.call (.registerPath "/{y}/b".toList (some 1)), .call (.registerPath "/a/{x}/c".toList (some 2))]

theorem literal_node_shadows_pattern :
    Within (step digitsEngine ⟨false, false⟩) (Succeeds digitsEngine ⟨false, false⟩)
        (fresh 4 (Nat.succ_pos 3)) shadowingRun ∧
      ((shadowingRun.take 1).foldl (step digitsEngine ⟨false, false⟩)
        (fresh 4 (Nat.succ_pos 3))).Found digitsEngine .get shadowedPath.text ∧
      (shadowingRun.foldl (step digitsEngine ⟨false, false⟩)
        (fresh 4 (Nat.succ_pos 3))).Matched digitsEngine shadowedPath ∧
      ¬ (shadowingRun.foldl (step digitsEngine ⟨false, false⟩)
        (fresh 4 (Nat.succ_pos 3))).Found digitsEngine .get shadowedPath.text := by
  unfold Found Matched
  decide +kernel

end Tracked
end HttpServer
