import HttpServer.TrieDescent
import HttpServer.TrieMap

/-!
`find` on tries where no node has both literal children and a wildcard child and
where every pattern owns the labels on its way. Such a trie can be searched
greedily: the descent passes the node of every pattern that matches, an exact
terminus at its end comes first, and otherwise the prefix seen last.
-/
namespace HttpServer
open Fields

namespace TrieNode
variable {T : Type} {rx : RegexEngine} {node : TrieNode T} {segs : List Str} {entry : T}
  {shape : List (Option Str)} {slot : Option Str} {caps : List (Str × Str)} {isPrefix : Bool}

theorem reaches_exactTerminus (stored : node.exactTerminus = some entry) :
    Reaches rx node [] [] false entry [] :=
  reaches_nil.mpr ⟨rfl, stored, fun _ => rfl⟩

variable {more : List (Str × Str)} {root : TrieNode T} {trace : List (TrieEvent T)}

theorem findLoop_exact (reached : Reaches rx node segs (slot :: shape) false entry more)
    (caps : List (Str × Str)) (best : Option (T × List (Str × Str))) :
    findLoop rx node segs caps best = some ⟨entry, caps ++ more, false⟩ := by
  induction segs generalizing node slot shape more caps best with
  | nil => exact absurd reached not_reaches_nil
  | cons seg segs ih =>
    obtain ⟨below, caps', taken⟩ := step_of_reaches reached caps
    obtain ⟨taken_, first, rfl, -, -, step⟩ := follow_of_step taken
    obtain ⟨-, tail, rfl, inner⟩ := (reaches_cons step).mp reached
    rw [findLoop_of_step taken]
    cases shape with
    | nil =>
      obtain ⟨rfl, stored, whole⟩ := reaches_nil.mp inner
      have exactly : below.exactTerminus = some entry := stored
      simp [whole rfl, exactly]
    | cons slot' shape =>
      have rest : segs ≠ [] := by
        rintro rfl
        exact not_reaches_nil inner
      rw [if_neg rest, ih inner, List.append_assoc]

theorem findLoop_best (unreached : ∀ slot shape isPrefix entry more,
      ¬Reaches rx node segs (slot :: shape) isPrefix entry more) (caps : List (Str × Str))
    (best : Option (T × List (Str × Str))) :
    findLoop rx node segs caps best = best.map fun seen => ⟨seen.1, seen.2, true⟩ := by
  cases result : findLoop rx node segs caps best with
  | none =>
    obtain ⟨missing, -⟩ := findLoop_none result
    rw [missing]
    rfl
  | some m =>
    rcases findLoop_some result with ⟨slot, shape, more, reached, -⟩ | ⟨seen, kind⟩
    · exact absurd reached (unreached slot shape _ _ more)
    · rw [seen, Option.map_some, ← kind]

/-- Without an exact terminus the deepest prefix is returned. -/
theorem findLoop_longest
    (inexact : ∀ slot shape entry more, ¬Reaches rx node segs (slot :: shape) false entry more)
    (reached : Reaches rx node segs (slot :: shape) true entry more)
    (deepest : ∀ slot' shape' entry' more',
      Reaches rx node segs (slot' :: shape') true entry' more' → shape'.length ≤ shape.length)
    (caps : List (Str × Str)) (best : Option (T × List (Str × Str))) :
    findLoop rx node segs caps best = some ⟨entry, caps ++ more, true⟩ := by
  induction segs generalizing node slot shape more caps best with
  | nil => exact absurd reached not_reaches_nil
  | cons seg segs ih =>
    obtain ⟨below, caps', taken⟩ := step_of_reaches reached caps
    obtain ⟨edge, first, rfl, -, -, step⟩ := follow_of_step taken
    have lift : ∀ {shape isPrefix entry tail}, Reaches rx below segs shape isPrefix entry tail →
        Reaches rx node (seg :: segs) (edge :: shape) isPrefix entry (first ++ tail) :=
      fun inner => (reaches_cons step).mpr ⟨rfl, _, rfl, inner⟩
    have bare : segs = [] → below.exactTerminus = none := by
      rintro rfl
      cases stored : below.exactTerminus with
      | none => rfl
      | some other => exact absurd (lift (reaches_exactTerminus stored)) (inexact edge [] other _)
    obtain ⟨rfl, tail, rfl, inner⟩ := (reaches_cons step).mp reached
    rw [findLoop_deeper taken bare]
    cases shape with
    | nil =>
      -- the prefix is at this child, and nothing lies below it
      obtain ⟨rfl, stored, -⟩ := reaches_nil.mp inner
      have marked : below.prefixTerminus = some entry := stored
      have unreached : ∀ slot' shape' isPrefix entry' more',
          ¬Reaches rx below segs (slot' :: shape') isPrefix entry' more' := by
        intro slot' shape' isPrefix entry' more' further
        cases isPrefix with
        | false => exact inexact _ _ _ _ (lift further)
        | true => exact absurd (deepest _ _ _ _ (lift further)) (by simp)
      rw [findLoop_best unreached, marked, List.append_nil]
      rfl
    | cons slot' shape =>
      have below_inexact : ∀ slot shape entry more,
          ¬Reaches rx below segs (slot :: shape) false entry more :=
        fun slot shape entry more further => inexact _ _ _ _ (lift further)
      rw [ih below_inexact inner ?_, List.append_assoc]
      intro slot'' shape'' entry'' more'' further
      have bound := deepest _ _ _ _ (lift further)
      simp only [List.length_cons] at bound
      omega

theorem findSegments_exact (reached : Reaches rx root segs shape false entry caps) :
    findSegments rx root segs = some ⟨entry, caps, false⟩ := by
  cases segs with
  | nil =>
    cases shape with
    | nil =>
      obtain ⟨rfl, stored, -⟩ := reaches_nil.mp reached
      have exactly : root.exactTerminus = some entry := stored
      rw [findSegments, matchRootTerminus, exactly]
    | cons slot shape => exact absurd reached not_reaches_nil
  | cons seg segs =>
    cases shape with
    | nil =>
      obtain ⟨-, -, whole⟩ := reaches_nil.mp reached
      exact absurd (whole rfl) (List.cons_ne_nil seg segs)
    | cons slot shape => exact findLoop_exact reached [] _

theorem findSegments_longest
    (inexact : ∀ shape entry caps, ¬Reaches rx root segs shape false entry caps)
    (reached : Reaches rx root segs shape true entry caps)
    (deepest : ∀ shape' entry' caps', Reaches rx root segs shape' true entry' caps' →
      shape'.length ≤ shape.length) : findSegments rx root segs = some ⟨entry, caps, true⟩ := by
  cases segs with
  | nil =>
    have bare : root.exactTerminus = none := by
      cases stored : root.exactTerminus with
      | none => rfl
      | some other => exact absurd (reaches_exactTerminus stored) (inexact [] other [])
    cases shape with
    | nil =>
      obtain ⟨rfl, stored, -⟩ := reaches_nil.mp reached
      have marked : root.prefixTerminus = some entry := stored
      rw [findSegments, matchRootTerminus, bare, marked]
      rfl
    | cons slot shape => exact absurd reached not_reaches_nil
  | cons seg segs =>
    cases shape with
    | nil =>
      obtain ⟨rfl, stored, -⟩ := reaches_nil.mp reached
      have marked : root.prefixTerminus = some entry := stored
      have unreached : ∀ slot shape isPrefix entry more,
          ¬Reaches rx root (seg :: segs) (slot :: shape) isPrefix entry more := by
        intro slot shape isPrefix entry' more further
        cases isPrefix with
        | false => exact inexact _ _ _ further
        | true => exact absurd (deepest _ _ _ further) (by simp)
      rw [findSegments, findLoop_best unreached, marked]
      · rfl
      · exact List.cons_ne_nil seg segs
    | cons slot shape =>
      refine findLoop_longest (fun slot shape entry more => inexact _ _ _) reached ?_ [] _
      intro slot' shape' entry' more' further
      have bound := deepest _ _ _ further
      simp only [List.length_cons] at bound
      omega

def Apart (node : TrieNode T) : Prop :=
  ∀ shape below, node.nodeAt shape = some below →
    below.children = [] ∨ below.wildcardChild = none

theorem Apart.next {below : TrieNode T} (apart : node.Apart) (edge : node.next slot = some below) :
    below.Apart := by
  intro shape last reached
  refine apart (slot :: shape) last ?_
  rw [nodeAt, edge]
  exact reached

theorem Apart.intro (here : node.children = [] ∨ node.wildcardChild = none)
    (below : ∀ slot found, node.next slot = some found → found.Apart) : node.Apart := by
  intro shape last reached
  cases shape with
  | nil =>
    cases reached
    exact here
  | cons slot shape =>
    obtain ⟨found, edge, rest⟩ := Option.bind_eq_some_iff.mp reached
    exact below slot found edge shape last rest

theorem follow_of_patternMatch {pats : List Str} (apart : node.Apart)
    (carried : node.carries pats = true) (matched : patternMatch rx isPrefix pats segs = some caps) :
    (∃ last, follow rx node (shapeOf pats) segs = some (last, caps)) ∧
      (isPrefix = false → pats.length = segs.length) := by
  induction pats generalizing node segs caps with
  | nil =>
    rw [patternMatch] at matched
    split at matched
    · rename_i complete
      cases matched
      refine ⟨⟨node, rfl⟩, ?_⟩
      rintro rfl
      rcases complete with impossible | rfl
      · cases impossible
      · rfl
    · cases matched
  | cons pat pats ih =>
    obtain ⟨below, edge, label, rest⟩ := carries_cons.mp carried
    cases segs with
    | nil => cases matched
    | cons seg segs =>
      rw [patternMatch] at matched
      by_cases wild : isWildcardSegment pat = true
      · rw [if_pos wild] at matched
        split at matched
        · rename_i fits
          obtain ⟨tail, inner, rfl⟩ := Option.map_eq_some_iff.mp matched
          obtain ⟨⟨last, walk⟩, whole⟩ := ih (apart.next edge) rest inner
          rw [slotOf_wildcard wild, TrieNode.next] at edge
          -- the wildcard child leaves no literal one
          have alone : node.child seg = none := by
            rcases apart [] node rfl with none_ | none_
            · rw [child, none_, List.lookup_nil]
            · rw [none_] at edge
              cases edge
          simp only [TrieNode.label, labelOf, wild, if_true, Prod.mk.injEq] at label
          have accepted : below.accepts rx seg = true := by
            by_cases plain : (parseWildcard pat).2 = []
            · simp [accepts, label.2, plain]
            · simpa [accepts, label.2, plain] using fits
          refine ⟨⟨last, ?_⟩, fun exactly => congrArg (· + 1) (whole exactly)⟩
          rw [shapeOf_cons, slotOf_wildcard wild]
          simp [follow, alone, edge, accepted, walk, label.1]
        · cases matched
      · have literal : isWildcardSegment pat = false := by simpa using wild
        rw [if_neg wild] at matched
        split at matched
        · rename_i same
          obtain ⟨⟨last, walk⟩, whole⟩ := ih (apart.next edge) rest matched
          rw [slotOf_literal literal, TrieNode.next] at edge
          refine ⟨⟨last, ?_⟩, fun exactly => congrArg (· + 1) (whole exactly)⟩
          rw [shapeOf_cons, slotOf_literal literal]
          simp [follow, ← same, edge, walk]
        · cases matched

open TrieEvent

def Inserted (trace : List (TrieEvent T)) (pattern : List Str) (isPrefix : Bool) : Prop :=
  ∃ path entry, ⟨.insert path entry isPrefix, true⟩ ∈ trace ∧ tokenizeUrl path = pattern

def insertCalls (inserts : List (Str × T × Bool)) : List (TrieCall T) :=
  inserts.map fun i => .insert i.1 i.2.1 i.2.2

/-- Nodes do not mix literal and wildcard children, and the patterns through a
    wildcard node agree on its name and constraint. -/
structure Unambiguous (state : TrieNode T × List (TrieEvent T)) : Prop where
  apart : state.1.Apart
  agree : ∀ pattern isPrefix, Inserted state.2 pattern isPrefix → state.1.carries pattern = true

theorem insert_of_mem_run (rx : RegexEngine) (inserts : List (Str × T × Bool)) :
    ∀ event ∈ (run rx (insertCalls inserts)).2, (TrieEvent.entry event).isSome = true := by
  have start : ∀ event ∈ ((empty, []) : TrieNode T × List (TrieEvent T)).2,
      (TrieEvent.entry event).isSome = true := fun event listed => nomatch listed
  refine List.foldlRecOn (motive := fun state : TrieNode T × List (TrieEvent T) =>
    ∀ event ∈ state.2, (TrieEvent.entry event).isSome = true) _ (record rx) start ?_
  intro state earlier call listed event member
  rcases List.mem_cons.mp member with rfl | older
  · obtain ⟨i, -, rfl⟩ := List.mem_map.mp listed
    rfl
  · exact earlier event older

theorem latestEntry_of_inserted {pattern : List Str}
    (inserts : ∀ event ∈ trace, (TrieEvent.entry event).isSome = true)
    (inserted : Inserted trace pattern isPrefix) :
    ∃ entry, latestEntry ⟨shapeOf pattern, isPrefix⟩ trace = some entry := by
  obtain ⟨path, entry, listed, rfl⟩ := inserted
  have touched : TrieEvent.changes ⟨shapeOf (tokenizeUrl path), isPrefix⟩
      ⟨.insert path entry isPrefix, true⟩ = true := by
    simp [TrieEvent.changes, TrieCall.key, trieKey]
  have found : (trace.find? (changes ⟨shapeOf (tokenizeUrl path), isPrefix⟩)).isSome = true :=
    List.find?_isSome.mpr ⟨_, listed, touched⟩
  obtain ⟨event, latest⟩ := Option.isSome_iff_exists.mp found
  obtain ⟨stored, same⟩ := Option.isSome_iff_exists.mp
    (inserts event (List.mem_of_find?_eq_some latest))
  exact ⟨stored, by rw [latestEntry, latest, Option.bind_some, same]⟩

theorem inserted_of_latestEntry (latest : latestEntry ⟨shape, isPrefix⟩ trace = some entry) :
    ∃ pattern, shapeOf pattern = shape ∧ Inserted trace pattern isPrefix := by
  obtain ⟨event, found, stored⟩ := Option.bind_eq_some_iff.mp latest
  have touched := List.find?_some found
  have listed := List.mem_of_find?_eq_some found
  obtain ⟨call, returned⟩ := event
  cases call with
  | insert path written kind =>
    simp only [TrieEvent.changes, TrieCall.key, trieKey, TrieKey.mk.injEq, Bool.and_eq_true,
      decide_eq_true_eq] at touched
    obtain ⟨⟨rfl, rfl⟩, rfl⟩ := touched
    exact ⟨tokenizeUrl path, rfl, path, written, listed, rfl⟩
  | remove path kind => cases stored
  | hasTerminusAt path kind => cases stored

section
variable (rx : RegexEngine) {state : TrieNode T × List (TrieEvent T)} (follows : Follows state)
  (unambiguous : Unambiguous state)
include follows unambiguous

theorem reaches_of_patternMatch {pattern segs : List Str} {isPrefix : Bool}
    {caps : List (Str × Str)} {entry : T} (inserted : Inserted state.2 pattern isPrefix)
    (matched : patternMatch rx isPrefix pattern segs = some caps)
    (latest : latestEntry ⟨shapeOf pattern, isPrefix⟩ state.2 = some entry) :
    Reaches rx state.1 segs (shapeOf pattern) isPrefix entry caps := by
  have carried := unambiguous.agree pattern isPrefix inserted
  obtain ⟨⟨last, walk⟩, whole⟩ := follow_of_patternMatch unambiguous.apart carried matched
  have stored := follows.stored ⟨shapeOf pattern, isPrefix⟩
  rw [latest] at stored
  simp only [TrieNode.terminusAt, nodeAt_of_follow walk, Option.bind_some] at stored
  refine ⟨last, walk, stored, ?_⟩
  intro exactly
  rw [shapeOf, List.length_map]
  exact whole exactly

theorem patternMatch_of_reaches {segs : List Str} {shape : List (Option Str)} {isPrefix : Bool}
    {caps : List (Str × Str)} {entry : T}
    (reached : Reaches rx state.1 segs shape isPrefix entry caps) :
    ∃ pattern, shapeOf pattern = shape ∧ Inserted state.2 pattern isPrefix ∧
      patternMatch rx isPrefix pattern segs = some caps := by
  have latest := follows.stored ⟨shape, isPrefix⟩
  rw [reached.terminusAt] at latest
  obtain ⟨pattern, rfl, inserted⟩ := inserted_of_latestEntry latest.symm
  obtain ⟨last, walk, -, whole⟩ := reached
  rw [shapeOf, List.length_map] at whole
  exact ⟨pattern, rfl, inserted,
    patternMatch_of_follow walk (unambiguous.agree pattern isPrefix inserted) whole⟩

end

structure ExactLookup (rx : RegexEngine) (trace : List (TrieEvent T)) (segs : List Str)
    (found : Option (TrieMatch T)) : Prop where
  hit : found.isSome = true ↔ ∃ pattern isPrefix, Inserted trace pattern isPrefix ∧
    (patternMatch rx isPrefix pattern segs).isSome = true
  exactly : ∀ pattern caps, Inserted trace pattern false →
    patternMatch rx false pattern segs = some caps →
      ∃ entry, latestEntry ⟨shapeOf pattern, false⟩ trace = some entry ∧
        found = some ⟨entry, caps, false⟩
  longest : (∀ pattern, Inserted trace pattern false → patternMatch rx false pattern segs = none) →
    ∀ pattern caps, Inserted trace pattern true → patternMatch rx true pattern segs = some caps →
      (∀ other, Inserted trace other true → (patternMatch rx true other segs).isSome = true →
        other.length ≤ pattern.length) →
      ∃ entry, latestEntry ⟨shapeOf pattern, true⟩ trace = some entry ∧
        found = some ⟨entry, caps, true⟩

def joinedPath (segs : List Str) : Str := '/' :: ['/'].intercalate segs

theorem poppedSegments_joinedPath (clean : ∀ seg ∈ segs, seg ≠ [] ∧ '/' ∉ seg) :
    poppedSegments (joinedPath segs) = segs :=
  fields_intercalate '/' segs (fun seg listed => (clean seg listed).2)
    fun seg listed => (clean seg listed).1

/-- On an unambiguous trie `find` answers with the pattern that matches. -/
theorem find_exact_when_unambiguous (rx : RegexEngine) (inserts : List (Str × T × Bool))
    (unambiguous : Unambiguous (run rx (insertCalls inserts))) (segs : List Str)
    (clean : ∀ seg ∈ segs, seg ≠ [] ∧ '/' ∉ seg) :
    ExactLookup rx (run rx (insertCalls inserts)).2 segs
      ((run rx (insertCalls inserts)).1.find rx (joinedPath segs)) := by
  have follows := follows_run rx (insertCalls inserts)
  have only := insert_of_mem_run rx inserts
  rw [find, poppedSegments_joinedPath clean]
  constructor
  · rw [findSegments_isSome]
    constructor
    · rintro ⟨shape, isPrefix, entry, caps, reached⟩
      obtain ⟨pattern, -, inserted, matched⟩ :=
        patternMatch_of_reaches rx follows unambiguous reached
      exact ⟨pattern, isPrefix, inserted, by rw [matched]; rfl⟩
    · rintro ⟨pattern, isPrefix, inserted, matched⟩
      obtain ⟨caps, matched⟩ := Option.isSome_iff_exists.mp matched
      obtain ⟨entry, latest⟩ := latestEntry_of_inserted only inserted
      exact ⟨_, _, _, _, reaches_of_patternMatch rx follows unambiguous inserted matched latest⟩
  · intro pattern caps inserted matched
    obtain ⟨entry, latest⟩ := latestEntry_of_inserted only inserted
    exact ⟨entry, latest, findSegments_exact
      (reaches_of_patternMatch rx follows unambiguous inserted matched latest)⟩
  · intro inexact pattern caps inserted matched deepest
    obtain ⟨entry, latest⟩ := latestEntry_of_inserted only inserted
    refine ⟨entry, latest, findSegments_longest ?_
      (reaches_of_patternMatch rx follows unambiguous inserted matched latest) ?_⟩
    · intro shape entry' caps' reached
      obtain ⟨other, -, exactly, hit⟩ := patternMatch_of_reaches rx follows unambiguous reached
      rw [inexact other exactly] at hit
      cases hit
    · intro shape entry' caps' reached
      obtain ⟨other, rfl, prefixed, hit⟩ := patternMatch_of_reaches rx follows unambiguous reached
      have bound := deepest other prefixed (by rw [hit]; rfl)
      simpa [shapeOf] using bound

def userInserts : List (Str × Nat × Bool) :=
  [("/users".toList, 1, true), ("/users/\x7bid\x7d".toList, 2, false)]

theorem find_exact_in_user_trie :
    let rx : RegexEngine := ⟨fun _ => true, fun s re => s == re⟩
    let state := run rx (insertCalls userInserts)
    let segs := ["users".toList, "5".toList]
    Unambiguous state ∧ (∀ seg ∈ segs, seg ≠ [] ∧ '/' ∉ seg) ∧
      ExactLookup rx state.2 segs (state.1.find rx (joinedPath segs)) := by
  intro rx state segs
  have clean : ∀ seg ∈ segs, seg ≠ [] ∧ '/' ∉ seg := by decide
  have leaf {node : TrieNode Nat} (none_ : ∀ slot, node.next slot = none)
      (here : node.children = []) : node.Apart :=
    Apart.intro (Or.inl here) fun slot found edge => by rw [none_] at edge; cases edge
  have unambiguous : Unambiguous state := by
    constructor
    · refine Apart.intro (Or.inr rfl) fun slot users edge => ?_
      cases slot with
      | none => cases edge
      | some text =>
        have stored := Assoc.mem_of_lookup edge
        obtain ⟨-, rfl⟩ := Prod.mk.inj (List.mem_singleton.mp stored)
        refine Apart.intro (Or.inl rfl) fun slot id edge => ?_
        cases slot with
        | none =>
          cases edge
          exact leaf (fun slot => by cases slot <;> rfl) rfl
        | some text => cases edge
    · rintro pattern isPrefix ⟨path, entry, listed, rfl⟩
      rcases List.mem_cons.mp listed with same | older
      · cases same
        rfl
      · cases List.mem_singleton.mp older
        rfl
  exact ⟨unambiguous, clean, find_exact_when_unambiguous rx userInserts unambiguous segs clean⟩

end TrieNode
end HttpServer
