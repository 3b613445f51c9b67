import HttpServer.Lib.Assoc
import HttpServer.SegmentTrie

/-!
The trie as a map from shapes to nodes. A shape is a pattern with its wildcard
segments blurred into one: patterns of one shape share a node, and the node
keeps the wildcard name and constraint of the pattern that created it. Insert
and remove are described by what they do to the termini and labels of the map,
and `find` by the node its greedy descent reaches.
-/
namespace HttpServer

/-- The edge a pattern segment is stored under: its text, or the one wildcard
    edge of the node. -/
def slotOf (seg : Str) : Option Str := if isWildcardSegment seg then none else some seg

def shapeOf (segs : List Str) : List (Option Str) := segs.map slotOf

@[simp] theorem shapeOf_nil : shapeOf [] = [] := rfl

@[simp] theorem shapeOf_cons (seg : Str) (segs : List Str) :
    shapeOf (seg :: segs) = slotOf seg :: shapeOf segs := rfl

def labelOf (seg : Str) : Str × Option Str :=
  if isWildcardSegment seg then
    ((parseWildcard seg).1,
      if (parseWildcard seg).2 = [] then none else some (parseWildcard seg).2)
  else ([], none)

theorem slotOf_wildcard {seg : Str} (wild : isWildcardSegment seg = true) : slotOf seg = none := by
  simp [slotOf, wild]

theorem slotOf_literal {seg : Str} (literal : isWildcardSegment seg = false) :
    slotOf seg = some seg := by
  simp [slotOf, literal]

namespace TrieNode
variable {T : Type}

def label (node : TrieNode T) : Str × Option Str := (node.wildcardName, node.wildcardConstraint)

def next (node : TrieNode T) : Option Str → Option (TrieNode T)
  | some seg => node.child seg
  | none => node.wildcardChild

def setNext (node : TrieNode T) : Option Str → TrieNode T → TrieNode T
  | some seg, below => node.setChild seg below
  | none, below => { node with wildcardChild := some below }

def fresh (seg : Str) : TrieNode T :=
  { empty with wildcardName := (labelOf seg).1, wildcardConstraint := (labelOf seg).2 }

def nodeAt : TrieNode T → List (Option Str) → Option (TrieNode T)
  | node, [] => some node
  | node, slot :: shape => (node.next slot).bind fun below => nodeAt below shape

def terminusAt (root : TrieNode T) (shape : List (Option Str)) (isPrefix : Bool) : Option T :=
  (root.nodeAt shape).bind fun node => node.terminus isPrefix

@[simp] theorem next_setNext (node : TrieNode T) (slot other : Option Str) (below : TrieNode T) :
    (node.setNext slot below).next other = if other = slot then some below else node.next other := by
  cases slot with
  | none => cases other <;> rfl
  | some seg =>
    cases other with
    | none => rfl
    | some other =>
      refine (Assoc.lookup_put node.children seg other below).trans ?_
      simp [next, child]

@[simp] theorem label_setNext (node : TrieNode T) (slot : Option Str) (below : TrieNode T) :
    (node.setNext slot below).label = node.label := by
  cases slot <;> rfl

@[simp] theorem terminus_setNext (node : TrieNode T) (slot : Option Str) (below : TrieNode T)
    (isPrefix : Bool) : (node.setNext slot below).terminus isPrefix = node.terminus isPrefix := by
  cases slot <;> rfl

@[simp] theorem next_setTerminus (node : TrieNode T) (entry : Option T) (isPrefix : Bool)
    (slot : Option Str) : (node.setTerminus entry isPrefix).next slot = node.next slot := by
  cases slot <;> cases isPrefix <;> rfl

@[simp] theorem label_setTerminus (node : TrieNode T) (entry : Option T) (isPrefix : Bool) :
    (node.setTerminus entry isPrefix).label = node.label := by
  cases isPrefix <;> rfl

@[simp] theorem terminus_setTerminus (node : TrieNode T) (entry : Option T) (isPrefix kind : Bool) :
    (node.setTerminus entry isPrefix).terminus kind =
      if kind = isPrefix then entry else node.terminus kind := by
  cases isPrefix <;> cases kind <;> rfl

@[simp] theorem next_empty (slot : Option Str) : (empty : TrieNode T).next slot = none := by
  cases slot <;> rfl

@[simp] theorem next_fresh (seg : Str) (slot : Option Str) :
    (fresh seg : TrieNode T).next slot = none := by
  cases slot <;> rfl

@[simp] theorem terminus_fresh (seg : Str) (isPrefix : Bool) :
    (fresh seg : TrieNode T).terminus isPrefix = none := by
  cases isPrefix <;> rfl

@[simp] theorem terminusAt_nil (node : TrieNode T) (isPrefix : Bool) :
    node.terminusAt [] isPrefix = node.terminus isPrefix := rfl

theorem terminusAt_cons (node : TrieNode T) (slot : Option Str) (shape : List (Option Str))
    (isPrefix : Bool) :
    node.terminusAt (slot :: shape) isPrefix =
      (node.next slot).bind fun below => below.terminusAt shape isPrefix := by
  simp only [terminusAt, nodeAt, Option.bind_assoc]

variable {node : TrieNode T} {seg : Str}

theorem terminusAt_bare (leaf : ∀ slot, node.next slot = none)
    (bare : ∀ isPrefix, node.terminus isPrefix = none) (shape : List (Option Str)) (isPrefix : Bool) :
    node.terminusAt shape isPrefix = none := by
  cases shape with
  | nil => exact bare isPrefix
  | cons slot shape => simp [terminusAt_cons, leaf]

section
variable (rx : RegexEngine) (entry : T) (isPrefix : Bool)

def blocked (node : TrieNode T) (seg : Str) : Bool :=
  isWildcardSegment seg && node.wildcardChild.isNone && !decide ((parseWildcard seg).2 = []) &&
    !rx.compiles (parseWildcard seg).2

/-- The first constraint on the way of a pattern that fails to compile where a
    wildcard node has to be created for it. -/
def firstBad : TrieNode T → List Str → Option Str
  | _, [] => none
  | node, seg :: segs =>
    if node.blocked rx seg then some (parseWildcard seg).2
    else firstBad ((node.next (slotOf seg)).getD (fresh seg)) segs

theorem insertSegments_cons (node : TrieNode T) (seg : Str) (segs : List Str) :
    insertSegments rx entry isPrefix node (seg :: segs) =
      if node.blocked rx seg then
        (node.setNext none { empty with wildcardName := (parseWildcard seg).1 },
          some (parseWildcard seg).2)
      else
        let below :=
          insertSegments rx entry isPrefix ((node.next (slotOf seg)).getD (fresh seg)) segs
        (node.setNext (slotOf seg) below.1, below.2) := by
  by_cases wild : isWildcardSegment seg = true
  · cases stored : node.wildcardChild with
    | some below => simp [insertSegments, blocked, wild, stored, slotOf, next, setNext]
    | none =>
      by_cases plain : (parseWildcard seg).2 = []
      · simp [insertSegments, blocked, wild, stored, slotOf, next, setNext, fresh, labelOf, plain,
          empty]
      · by_cases compiles : rx.compiles (parseWildcard seg).2 = true
        · simp [insertSegments, blocked, wild, stored, slotOf, next, setNext, fresh, labelOf, plain,
            compiles, empty]
        · simp [insertSegments, blocked, wild, stored, setNext, plain, compiles]
  · simp [insertSegments, blocked, wild, slotOf, next, setNext, fresh, labelOf, empty]

theorem insertSegments_thrown (node : TrieNode T) (segs : List Str) :
    (insertSegments rx entry isPrefix node segs).2 = firstBad rx node segs := by
  induction segs generalizing node with
  | nil => rfl
  | cons seg segs ih =>
    rw [insertSegments_cons, firstBad]
    by_cases stop : node.blocked rx seg = true
    · simp [stop]
    · simp [stop, ih]

theorem next_of_blocked {rx : RegexEngine} {node : TrieNode T} {seg : Str}
    (stop : node.blocked rx seg = true) : slotOf seg = none ∧ node.next none = none := by
  simp only [blocked, Bool.and_eq_true, Option.isNone_iff_eq_none] at stop
  exact ⟨slotOf_wildcard stop.1.1.1, stop.1.1.2⟩

@[simp] theorem label_insertSegments (node : TrieNode T) (segs : List Str) :
    (insertSegments rx entry isPrefix node segs).1.label = node.label := by
  cases segs with
  | nil => simp [insertSegments]
  | cons seg segs =>
    rw [insertSegments_cons]
    split
    · simp
    · simp

theorem insertSegments_ne {node : TrieNode T} {segs : List Str}
    (bad : firstBad rx node segs ≠ none) : (insertSegments rx entry isPrefix node segs).1 ≠ node := by
  induction segs generalizing node with
  | nil => exact absurd rfl bad
  | cons seg segs ih =>
    rw [insertSegments_cons]
    rw [firstBad] at bad
    intro same
    by_cases stop : node.blocked rx seg = true
    · obtain ⟨-, missing⟩ := next_of_blocked stop
      have edge := congrArg (fun node => node.next none) same
      simp [stop, missing] at edge
    · simp only [stop, Bool.false_eq_true, if_false] at bad same
      have edge := congrArg (fun node => node.next (slotOf seg)) same
      simp only [next_setNext, if_true] at edge
      cases old : node.next (slotOf seg) with
      | none =>
        rw [old] at edge
        cases edge
      | some below =>
        rw [old] at bad edge
        exact ih bad (Option.some.inj edge)

/-- Insertion writes one terminus, and none when it throws. -/
theorem terminusAt_insertSegments (node : TrieNode T) (segs : List Str) (shape : List (Option Str))
    (kind : Bool) :
    (insertSegments rx entry isPrefix node segs).1.terminusAt shape kind =
      if firstBad rx node segs = none ∧ shape = shapeOf segs ∧ kind = isPrefix then some entry
      else node.terminusAt shape kind := by
  induction segs generalizing node shape with
  | nil =>
    cases shape with
    | nil => simp [insertSegments, firstBad]
    | cons slot shape => simp [insertSegments, terminusAt_cons]
  | cons seg segs ih =>
    rw [insertSegments_cons, firstBad]
    by_cases stop : node.blocked rx seg = true
    · -- the node left behind has a name and nothing else
      obtain ⟨-, missing⟩ := next_of_blocked stop
      cases shape with
      | nil => simp [stop]
      | cons slot shape =>
        by_cases here : slot = none
        · have bare : ({ empty with wildcardName := (parseWildcard seg).1 } :
              TrieNode T).terminusAt shape kind = none :=
            terminusAt_bare (fun slot => by cases slot <;> rfl) (fun kind => by cases kind <;> rfl)
              shape kind
          simp [stop, here, missing, terminusAt_cons, bare]
        · simp [stop, here, terminusAt_cons]
    · cases shape with
      | nil => simp [stop]
      | cons slot shape =>
        by_cases here : slot = slotOf seg
        · subst here
          have base : ((node.next (slotOf seg)).getD (fresh seg)).terminusAt shape kind =
              (node.next (slotOf seg)).bind fun below => below.terminusAt shape kind := by
            cases node.next (slotOf seg) with
            | some below => rfl
            | none => exact terminusAt_bare (next_fresh seg) (terminus_fresh seg) shape kind
          have below := ih ((node.next (slotOf seg)).getD (fresh seg)) shape
          simp [stop, terminusAt_cons, below, base]
        · simp [stop, here, terminusAt_cons]

end

-- Literal edges are never wildcard-shaped, so a pattern has one way down.
inductive Tidy : TrieNode T → Prop
  | intro (node : TrieNode T) (literal : ∀ kv ∈ node.children, isWildcardSegment kv.1 = false)
      (distinct : (node.children.map Prod.fst).Nodup)
      (below : ∀ slot found, node.next slot = some found → Tidy found) : Tidy node

theorem tidy_leaf (children : node.children = []) (wildcard : node.wildcardChild = none) :
    node.Tidy := by
  refine Tidy.intro node (by simp [children]) (by simp [children]) fun slot found edge => ?_
  cases slot with
  | none => simp [next, wildcard] at edge
  | some seg => simp [next, child, children] at edge

variable {slot : Option Str} {below last : TrieNode T} {isPrefix : Bool} {segs : List Str}

theorem Tidy.next {found : TrieNode T} (tidy : node.Tidy) (edge : node.next slot = some found) :
    found.Tidy := by
  cases tidy with
  | intro _ _ _ below => exact below slot found edge

theorem Tidy.child_wildcard (tidy : node.Tidy) (wild : isWildcardSegment seg = true) :
    node.child seg = none := by
  cases tidy with
  | intro _ literal _ _ =>
    refine (Assoc.lookup_eq_none_iff_keys _ _).mpr fun kv member same => ?_
    rw [← same, literal kv member] at wild
    cases wild

theorem Tidy.setNext {node below : TrieNode T} (tidy : node.Tidy) (tidyBelow : below.Tidy)
    {slot : Option Str} (edge : ∀ seg, slot = some seg → isWildcardSegment seg = false) :
    (node.setNext slot below).Tidy := by
  have lower : ∀ other found, (node.setNext slot below).next other = some found → found.Tidy := by
    intro other found reached
    rw [next_setNext] at reached
    split at reached
    · cases reached
      exact tidyBelow
    · exact tidy.next reached
  cases tidy with
  | intro _ literal distinct _ =>
    cases slot with
    | none => exact Tidy.intro _ literal distinct lower
    | some seg =>
      refine Tidy.intro _ (fun kv member => ?_) (Assoc.nodup_keys_put distinct seg below) lower
      have keys := Assoc.keys_put node.children seg below
      have key : kv.1 ∈ (Assoc.put node.children seg below).map Prod.fst :=
        List.mem_map_of_mem member
      rw [keys] at key
      have known : kv.1 ∈ node.children.map Prod.fst ∨ kv.1 = seg := by
        split at key
        · exact Or.inl key
        · simpa using key
      rcases known with old | new
      · obtain ⟨pair, stored, same⟩ := List.mem_map.mp old
        rw [← same]
        exact literal pair stored
      · rw [new]
        exact edge seg rfl

theorem Tidy.setTerminus (tidy : node.Tidy) (entry : Option T) (isPrefix : Bool) :
    (node.setTerminus entry isPrefix).Tidy := by
  have lower : ∀ slot found, (node.setTerminus entry isPrefix).next slot = some found →
      found.Tidy := by
    intro slot found reached
    rw [next_setTerminus] at reached
    exact tidy.next reached
  cases tidy with
  | intro _ literal distinct _ =>
    cases isPrefix with
    | false => exact Tidy.intro _ literal distinct lower
    | true => exact Tidy.intro _ literal distinct lower

theorem slotOf_eq_some {text : Str} (edge : slotOf seg = some text) :
    isWildcardSegment text = false := by
  unfold slotOf at edge
  split at edge
  · cases edge
  · cases edge
    rename_i literal
    simpa using literal

theorem Tidy.insertSegments (rx : RegexEngine) (entry : T) (isPrefix : Bool) (tidy : node.Tidy)
    (segs : List Str) : (TrieNode.insertSegments rx entry isPrefix node segs).1.Tidy := by
  induction segs generalizing node with
  | nil => exact tidy.setTerminus (some entry) isPrefix
  | cons seg segs ih =>
    rw [insertSegments_cons]
    split
    · exact @Tidy.setNext T node _ tidy (tidy_leaf rfl rfl) none fun text edge => nomatch edge
    · have base : ((node.next (slotOf seg)).getD (fresh seg)).Tidy := by
        cases edge : node.next (slotOf seg) with
        | some below => exact tidy.next edge
        | none => exact tidy_leaf rfl rfl
      exact tidy.setNext (ih base) fun text same => slotOf_eq_some same

theorem walkRegisteredPattern_eq (tidy : node.Tidy) (segs : List Str) :
    node.walkRegisteredPattern segs = node.nodeAt (shapeOf segs) := by
  induction segs generalizing node with
  | nil => rfl
  | cons seg segs ih =>
    rw [walkRegisteredPattern, shapeOf_cons, nodeAt]
    by_cases wild : isWildcardSegment seg = true
    · rw [tidy.child_wildcard wild, slotOf_wildcard wild, next]
      cases edge : node.wildcardChild with
      | none => rfl
      | some below =>
        have inner := ih (tidy.next (show node.next none = some below from edge))
        simp [wild, inner]
    · rw [slotOf_literal (by simpa using wild), next]
      cases edge : node.child seg with
      | none =>
        cases node.wildcardChild with
        | none => rfl
        | some below => simp [wild]
      | some below =>
        have inner := ih (tidy.next (show node.next (some seg) = some below from edge))
        simp [inner]

theorem hasTerminusAt_eq {root : TrieNode T} (tidy : root.Tidy) (path : Str) (isPrefix : Bool) :
    root.hasTerminusAt path isPrefix =
      (root.terminusAt (shapeOf (tokenizeUrl path)) isPrefix).isSome := by
  rw [hasTerminusAt, walkRegisteredPattern_eq tidy, terminusAt]
  cases root.nodeAt (shapeOf (tokenizeUrl path)) with
  | none => rfl
  | some node => rfl

theorem removeSegments_cons (tidy : node.Tidy) (isPrefix : Bool) (seg : Str) (segs : List Str) :
    removeSegments isPrefix node (seg :: segs) =
      (node.next (slotOf seg)).elim node
        fun below => node.setNext (slotOf seg) (removeSegments isPrefix below segs) := by
  by_cases wild : isWildcardSegment seg = true
  · rw [removeSegments, tidy.child_wildcard wild, slotOf_wildcard wild, next]
    cases node.wildcardChild with
    | none => rfl
    | some below => simp [wild, setNext]
  · rw [removeSegments, slotOf_literal (by simpa using wild), next]
    cases node.child seg with
    | some below => rfl
    | none =>
      cases node.wildcardChild with
      | none => rfl
      | some below => simp [wild]

theorem Tidy.removeSegments (tidy : node.Tidy) (isPrefix : Bool) (segs : List Str) :
    (TrieNode.removeSegments isPrefix node segs).Tidy := by
  induction segs generalizing node with
  | nil => exact tidy.setTerminus none isPrefix
  | cons seg segs ih =>
    rw [removeSegments_cons tidy]
    cases edge : node.next (slotOf seg) with
    | none => exact tidy
    | some below => exact tidy.setNext (ih (tidy.next edge)) fun text same => slotOf_eq_some same

theorem terminusAt_removeSegments (tidy : node.Tidy) (isPrefix : Bool) (segs : List Str)
    (shape : List (Option Str)) (kind : Bool) :
    (removeSegments isPrefix node segs).terminusAt shape kind =
      if shape = shapeOf segs ∧ kind = isPrefix then none else node.terminusAt shape kind := by
  induction segs generalizing node shape with
  | nil =>
    cases shape with
    | nil => simp [removeSegments]
    | cons slot shape => simp [removeSegments, terminusAt_cons]
  | cons seg segs ih =>
    rw [removeSegments_cons tidy]
    cases edge : node.next (slotOf seg) with
    | none =>
      cases shape with
      | nil => simp
      | cons slot shape =>
        by_cases here : slot = slotOf seg
        · simp [here, terminusAt_cons, edge]
        · simp [here]
    | some below =>
      cases shape with
      | nil => simp
      | cons slot shape =>
        by_cases here : slot = slotOf seg
        · simp [here, terminusAt_cons, edge, ih (tidy.next edge)]
        · simp [here, terminusAt_cons]

theorem setNext_setNext (node : TrieNode T) (slot : Option Str) (one two : TrieNode T) :
    (node.setNext slot one).setNext slot two = node.setNext slot two := by
  cases slot with
  | none => rfl
  | some seg =>
    have written := Assoc.put_put node.children seg one two
    simp only [setNext, setChild]
    exact congrArg (fun children => { node with children := children }) written

theorem Tidy.setNext_next (tidy : node.Tidy) (edge : node.next slot = some below) :
    node.setNext slot below = node := by
  have distinct : (node.children.map Prod.fst).Nodup := by
    cases tidy with
    | intro _ _ distinct _ => exact distinct
  obtain ⟨children, wildcardChild, wildcardName, wildcardConstraint, exactly, prefixed⟩ := node
  cases slot with
  | none =>
    have stored : wildcardChild = some below := edge
    rw [stored]
    rfl
  | some seg =>
    have kept := Assoc.put_of_lookup distinct (show children.lookup seg = some below from edge)
    exact congrArg (fun children => TrieNode.mk children wildcardChild wildcardName
      wildcardConstraint exactly prefixed) kept

theorem setTerminus_setTerminus_none (entry : T) (bare : node.terminus isPrefix = none) :
    (node.setTerminus (some entry) isPrefix).setTerminus none isPrefix = node := by
  obtain ⟨children, wildcardChild, wildcardName, wildcardConstraint, exactly, prefixed⟩ := node
  cases isPrefix with
  | false =>
    have empty : exactly = none := bare
    subst empty
    rfl
  | true =>
    have empty : prefixed = none := bare
    subst empty
    rfl

theorem blocked_of_next {rx : RegexEngine} (edge : node.next (slotOf seg) = some below) :
    node.blocked rx seg = false := by
  by_contra stop
  obtain ⟨wild, missing⟩ := next_of_blocked (by simpa using stop)
  rw [wild, missing] at edge
  cases edge

theorem firstBad_of_nodeAt (rx : RegexEngine) (there : node.nodeAt (shapeOf segs) = some last) :
    node.firstBad rx segs = none := by
  induction segs generalizing node with
  | nil => rfl
  | cons seg segs ih =>
    rw [shapeOf_cons, nodeAt] at there
    obtain ⟨below, edge, rest⟩ := Option.bind_eq_some_iff.mp there
    rw [firstBad, blocked_of_next edge, edge]
    exact ih rest

theorem removeSegments_insertSegments (rx : RegexEngine) (entry : T) (tidy : node.Tidy)
    (there : node.nodeAt (shapeOf segs) = some last) (bare : last.terminus isPrefix = none) :
    removeSegments isPrefix (insertSegments rx entry isPrefix node segs).1 segs = node := by
  induction segs generalizing node with
  | nil =>
    cases there
    exact setTerminus_setTerminus_none entry bare
  | cons seg segs ih =>
    rw [shapeOf_cons, nodeAt] at there
    obtain ⟨below, edge, rest⟩ := Option.bind_eq_some_iff.mp there
    have inserted := tidy.insertSegments rx entry isPrefix (seg :: segs)
    rw [insertSegments_cons, blocked_of_next edge, edge] at inserted ⊢
    simp only [Bool.false_eq_true, if_false, Option.getD_some] at inserted ⊢
    rw [removeSegments_cons inserted, next_setNext, if_pos rfl, Option.elim_some,
      ih (tidy.next edge) rest, setNext_setNext, tidy.setNext_next edge]

end TrieNode
end HttpServer
