import HttpServer.TriePatterns

/-!
The greedy descent of `find`. `follow` walks a shape along a request: a literal
edge must carry the request's segment, and the wildcard edge is taken only
where no literal edge has that segment and the constraint kept at the node
accepts it. At most one shape of each length can be followed, and `find`
answers with a terminus at the end of one of them.
-/
namespace HttpServer

/-- The captures of a request that matches a pattern segment by segment, each
    wildcard with its own constraint. -/
def patternMatch (rx : RegexEngine) (isPrefix : Bool) :
    List Str → List Str → Option (List (Str × Str))
  | [], segs => if isPrefix ∨ segs = [] then some [] else none
  | _ :: _, [] => none
  | pat :: pats, seg :: segs =>
    if isWildcardSegment pat then
      if (parseWildcard pat).2 = [] ∨ rx.regexMatch seg (parseWildcard pat).2 then
        (patternMatch rx isPrefix pats segs).map (((parseWildcard pat).1, seg) :: ·)
      else none
    else if pat = seg then patternMatch rx isPrefix pats segs
    else none

namespace TrieNode
variable {T : Type}

def accepts (rx : RegexEngine) (node : TrieNode T) (seg : Str) : Bool :=
  node.wildcardConstraint.all fun re => rx.regexMatch seg re

def follow (rx : RegexEngine) :
    TrieNode T → List (Option Str) → List Str → Option (TrieNode T × List (Str × Str))
  | node, [], _ => some (node, [])
  | _, _ :: _, [] => none
  | node, some text :: shape, seg :: segs =>
    if text = seg then (node.child seg).bind fun below => follow rx below shape segs else none
  | node, none :: shape, seg :: segs =>
    if (node.child seg).isSome then none
    else node.wildcardChild.bind fun below =>
      if below.accepts rx seg then
        (follow rx below shape segs).map fun end_ => (end_.1, (below.wildcardName, seg) :: end_.2)
      else none

def enters (rx : RegexEngine) (node : TrieNode T) (seg : Str) : Option Str → Bool
  | some text => decide (text = seg)
  | none => (node.next (some seg)).isNone && (node.next none).any (·.accepts rx seg)

/-- The pattern has a literal edge for the request where the shape has its
    wildcard edge. -/
def shadows : List Str → List (Option Str) → List Str → Bool
  | pat :: pats, slot :: shape, seg :: segs =>
    if slot = slotOf pat then shadows pats shape segs
    else decide (slot = none ∧ slotOf pat = some seg)
  | _, _, _ => false

/-- The request reaches the end of a pattern that is to be inserted: it walks the
    nodes that are there, and behind them the pattern's own. -/
def admits (rx : RegexEngine) : TrieNode T → List Str → List Str → Bool
  | _, [], _ => true
  | _, _ :: _, [] => false
  | node, pat :: pats, seg :: segs =>
    let below := (node.next (slotOf pat)).getD (fresh pat)
    (if isWildcardSegment pat then (node.next (some seg)).isNone && below.accepts rx seg
      else decide (pat = seg)) && admits rx below pats segs

def descend (rx : RegexEngine) : TrieNode T → List Str → Option (List (Option Str))
  | _, [] => some []
  | node, seg :: segs =>
    match node.child seg with
    | some below => (descend rx below segs).map (some seg :: ·)
    | none => node.wildcardChild.bind fun below =>
      if below.accepts rx seg then (descend rx below segs).map (none :: ·) else none

variable {rx : RegexEngine}

/-- A literal child is preferred, and a wildcard child must accept the segment. -/
theorem stepToChild_eq (node : TrieNode T) (seg : Str) (caps : List (Str × Str)) :
    stepToChild rx node seg caps =
      (node.child seg).elim
        ((node.wildcardChild.filter (·.accepts rx seg)).map fun below =>
          (below, caps ++ [(below.wildcardName, seg)]))
        fun below => some (below, caps) := by
  unfold stepToChild
  cases node.child seg with
  | some found => rfl
  | none =>
    cases node.wildcardChild with
    | none => rfl
    | some candidate =>
      simp only [Option.elim_none, Option.filter_some, accepts]
      cases candidate.wildcardConstraint with
      | none => rfl
      | some re =>
        simp only [Option.all_some]
        split
        · rfl
        · rfl

variable {node below root : TrieNode T} {caps caps' : List (Str × Str)} {segs pats : List Str}
  {seg : Str} {shape : List (Option Str)} {isPrefix : Bool} {entry : T} {slot : Option Str}

theorem follow_literal_none (literal : node.child seg = none) (text : Str)
    (shape : List (Option Str)) (segs : List Str) :
    follow rx node (some text :: shape) (seg :: segs) = none := by
  rw [follow, literal, Option.bind_none, ite_self]

theorem follow_of_step (step : stepToChild rx node seg caps = some (below, caps')) :
    ∃ slot more, caps' = caps ++ more ∧ node.next slot = some below ∧
      (∀ segs, descend rx node (seg :: segs) = (descend rx below segs).map (slot :: ·)) ∧
      ∀ other shape segs,
        follow rx node (other :: shape) (seg :: segs) =
          if other = slot then
            (follow rx below shape segs).map fun end_ => (end_.1, more ++ end_.2)
          else none := by
  rw [stepToChild_eq] at step
  cases literal : node.child seg with
  | some found =>
    rw [literal] at step
    cases step
    refine ⟨some seg, [], by simp, literal, fun segs => by simp [descend, literal],
      fun other shape segs => ?_⟩
    cases other with
    | none => simp [follow, literal]
    | some text =>
      by_cases same : text = seg
      · simp [follow, literal, same]
      · simp [follow, same]
  | none =>
    rw [literal, Option.elim_none, Option.map_eq_some_iff] at step
    obtain ⟨candidate, taken, same⟩ := step
    obtain ⟨wildcard, fits⟩ := Option.filter_eq_some_iff.mp taken
    obtain ⟨rfl, rfl⟩ := Prod.mk.inj same
    refine ⟨none, [(candidate.wildcardName, seg)], rfl, wildcard,
      fun segs => by simp [descend, literal, wildcard, fits], fun other shape segs => ?_⟩
    cases other with
    | none => simp [follow, literal, wildcard, fits]
    | some text => rw [follow_literal_none literal, if_neg (by simp)]

theorem stepToChild_none (stuck : stepToChild rx node seg caps = none) :
    node.child seg = none ∧ ∀ below, node.wildcardChild = some below →
      below.accepts rx seg = false := by
  rw [stepToChild_eq] at stuck
  cases literal : node.child seg with
  | some found =>
    rw [literal] at stuck
    cases stuck
  | none =>
    rw [literal, Option.elim_none, Option.map_eq_none_iff, Option.filter_eq_none_iff] at stuck
    exact ⟨rfl, fun below wildcard => by simpa using stuck below wildcard⟩

theorem follow_of_no_step (stuck : stepToChild rx node seg caps = none) (slot : Option Str)
    (shape : List (Option Str)) (segs : List Str) :
    follow rx node (slot :: shape) (seg :: segs) = none := by
  obtain ⟨literal, rejects⟩ := stepToChild_none stuck
  cases slot with
  | some text => exact follow_literal_none literal text shape segs
  | none =>
    cases wildcard : node.wildcardChild with
    | none => simp [follow, wildcard]
    | some candidate => simp [follow, wildcard, rejects candidate wildcard]

theorem descend_of_no_step (stuck : stepToChild rx node seg caps = none) (segs : List Str) :
    descend rx node (seg :: segs) = none := by
  obtain ⟨literal, rejects⟩ := stepToChild_none stuck
  cases wildcard : node.wildcardChild with
  | none => simp [descend, literal, wildcard]
  | some candidate => simp [descend, literal, wildcard, rejects candidate wildcard]

/-- The request reaches a terminus of the kind at the end of the shape: all of
    its segments for an exact one, some of them for a prefix. -/
def Reaches (rx : RegexEngine) (node : TrieNode T) (segs : List Str) (shape : List (Option Str))
    (isPrefix : Bool) (entry : T) (caps : List (Str × Str)) : Prop :=
  ∃ last, follow rx node shape segs = some (last, caps) ∧ last.terminus isPrefix = some entry ∧
    (isPrefix = false → shape.length = segs.length)

variable {more : List (Str × Str)} {best : Option (T × List (Str × Str))} {m : TrieMatch T}
  {last : TrieNode T}

theorem reaches_cons (step : ∀ other shape segs, follow rx node (other :: shape) (seg :: segs) =
      if other = slot then (follow rx below shape segs).map fun end_ => (end_.1, more ++ end_.2)
      else none) {other : Option Str} :
    Reaches rx node (seg :: segs) (other :: shape) isPrefix entry caps ↔
      other = slot ∧ ∃ tail, caps = more ++ tail ∧
        Reaches rx below segs shape isPrefix entry tail := by
  unfold Reaches
  rw [step]
  by_cases same : other = slot
  · simp only [same, if_true, Option.map_eq_some_iff, Prod.mk.injEq, List.length_cons,
      Nat.add_right_cancel_iff, true_and]
    constructor
    · rintro ⟨last, ⟨⟨last', tail⟩, walk, rfl, rfl⟩, rest⟩
      exact ⟨tail, rfl, last', walk, rest⟩
    · rintro ⟨tail, rfl, last, walk, rest⟩
      exact ⟨last, ⟨(last, tail), walk, rfl, rfl⟩, rest⟩
  · simp [same]

theorem reaches_nil :
    Reaches rx node segs [] isPrefix entry caps ↔
      caps = [] ∧ node.terminus isPrefix = some entry ∧ (isPrefix = false → segs = []) := by
  simp only [Reaches, follow, Option.some.injEq, Prod.mk.injEq, List.length_nil]
  constructor
  · rintro ⟨last, ⟨rfl, rfl⟩, stored, whole⟩
    exact ⟨rfl, stored, fun exact_ => List.length_eq_zero_iff.mp (whole exact_).symm⟩
  · rintro ⟨rfl, stored, whole⟩
    exact ⟨node, ⟨rfl, rfl⟩, stored, fun exact_ => by simp [whole exact_]⟩

theorem not_reaches_nil : ¬Reaches rx node [] (slot :: shape) isPrefix entry caps := by
  rintro ⟨last, walk, -⟩
  cases slot with
  | none => cases walk
  | some text => cases walk

theorem step_of_reaches
    (reached : Reaches rx node (seg :: segs) (slot :: shape) isPrefix entry more)
    (caps : List (Str × Str)) :
    ∃ below caps', stepToChild rx node seg caps = some (below, caps') := by
  cases taken : stepToChild rx node seg caps with
  | some pair => exact ⟨pair.1, pair.2, rfl⟩
  | none =>
    obtain ⟨last, walk, -⟩ := reached
    rw [follow_of_no_step taken] at walk
    cases walk

/-- One turn of the loop that takes a step: the prefix it passes is remembered,
    and an exact terminus ends it at the last segment. -/
theorem findLoop_of_step (taken : stepToChild rx node seg caps = some (below, caps'))
    (segs : List Str) (best : Option (T × List (Str × Str))) :
    findLoop rx node (seg :: segs) caps best =
      let deeper := findLoop rx below segs caps'
        (below.prefixTerminus.elim best fun entry => some (entry, caps'))
      if segs = [] then below.exactTerminus.elim deeper fun entry => some ⟨entry, caps', false⟩
      else deeper := by
  simp only [findLoop, taken]
  cases marked : below.prefixTerminus with
  | none =>
    cases segs with
    | cons other segs => rfl
    | nil => cases stored : below.exactTerminus <;> rfl
  | some seen =>
    cases segs with
    | cons other segs => rfl
    | nil => cases stored : below.exactTerminus <;> rfl

theorem findLoop_deeper (taken : stepToChild rx node seg caps = some (below, caps'))
    (bare : segs = [] → below.exactTerminus = none) (best : Option (T × List (Str × Str))) :
    findLoop rx node (seg :: segs) caps best =
      findLoop rx below segs caps'
        (below.prefixTerminus.elim best fun entry => some (entry, caps')) := by
  rw [findLoop_of_step taken]
  by_cases last : segs = []
  · rw [if_pos last, bare last]
    rfl
  · rw [if_neg last]

theorem findLoop_some (found : findLoop rx node segs caps best = some m) :
    (∃ slot shape more, Reaches rx node segs (slot :: shape) m.isPrefixMatch m.entry more ∧
        m.captures = caps ++ more) ∨
      (best = some (m.entry, m.captures) ∧ m.isPrefixMatch = true) := by
  induction segs generalizing node caps best with
  | nil =>
    obtain ⟨seen, rfl, rfl⟩ := Option.map_eq_some_iff.mp found
    exact Or.inr ⟨rfl, rfl⟩
  | cons seg segs ih =>
    cases taken : stepToChild rx node seg caps with
    | none =>
      rw [findLoop, taken] at found
      obtain ⟨seen, rfl, rfl⟩ := Option.map_eq_some_iff.mp found
      exact Or.inr ⟨rfl, rfl⟩
    | some pair =>
      obtain ⟨below, caps'⟩ := pair
      obtain ⟨slot, more, rfl, -, -, step⟩ := follow_of_step taken
      -- whatever is reached at or below the child is reached from here
      have lift : ∀ {shape tail}, Reaches rx below segs shape m.isPrefixMatch m.entry tail →
          m.captures = (caps ++ more) ++ tail →
          ∃ slot shape more, Reaches rx node (seg :: segs) (slot :: shape) m.isPrefixMatch m.entry
            more ∧ m.captures = caps ++ more := by
        intro shape tail reached same
        exact ⟨slot, shape, more ++ tail, (reaches_cons step).mpr ⟨rfl, tail, rfl, reached⟩,
          by simpa using same⟩
      have loop : findLoop rx below segs (caps ++ more)
            (below.prefixTerminus.elim best fun entry => some (entry, caps ++ more)) = some m →
          (∃ slot shape more, Reaches rx node (seg :: segs) (slot :: shape) m.isPrefixMatch m.entry
            more ∧ m.captures = caps ++ more) ∨
            (best = some (m.entry, m.captures) ∧ m.isPrefixMatch = true) := by
        intro deeper
        rcases ih deeper with ⟨slot', shape, tail, reached, same⟩ | ⟨seen, kind⟩
        · exact Or.inl (lift reached same)
        · cases marked : below.prefixTerminus with
          | none => exact Or.inr ⟨by simpa [marked] using seen, kind⟩
          | some entry =>
            simp only [marked, Option.elim_some, Option.some.injEq, Prod.mk.injEq] at seen
            have here : Reaches rx below segs [] m.isPrefixMatch m.entry [] :=
              reaches_nil.mpr ⟨rfl, by simp [terminus, kind, marked, seen.1], by simp [kind]⟩
            exact Or.inl (lift here (by simp [← seen.2]))
      rw [findLoop_of_step taken] at found
      cases segs with
      | cons other segs => exact loop found
      | nil =>
        cases stored : below.exactTerminus with
        | none =>
          rw [stored] at found
          exact loop found
        | some entry =>
          rw [stored] at found
          cases found
          exact Or.inl (lift (reaches_nil.mpr ⟨rfl, by simp [terminus, stored], by simp⟩) (by simp))

theorem findLoop_none (missed : findLoop rx node segs caps best = none) :
    best = none ∧ ∀ slot shape isPrefix entry more,
      ¬ Reaches rx node segs (slot :: shape) isPrefix entry more := by
  induction segs generalizing node caps best with
  | nil =>
    refine ⟨by simpa [findLoop] using missed, ?_⟩
    intro slot shape isPrefix entry more
    exact not_reaches_nil
  | cons seg segs ih =>
    cases taken : stepToChild rx node seg caps with
    | none =>
      refine ⟨by simpa [findLoop, taken] using missed, ?_⟩
      intro slot shape isPrefix entry more reached
      obtain ⟨below, caps', step⟩ := step_of_reaches reached caps
      rw [taken] at step
      cases step
    | some pair =>
      obtain ⟨below, caps'⟩ := pair
      obtain ⟨slot, more, rfl, -, -, step⟩ := follow_of_step taken
      have last : segs = [] → below.exactTerminus = none := by
        rintro rfl
        rw [findLoop_of_step taken] at missed
        cases stored : below.exactTerminus with
        | none => rfl
        | some entry => simp [stored] at missed
      rw [findLoop_deeper taken last] at missed
      obtain ⟨seen, unreachable⟩ := ih missed
      have bare : below.prefixTerminus = none := by
        cases marked : below.prefixTerminus with
        | none => rfl
        | some entry => simp [marked] at seen
      refine ⟨by simpa [bare] using seen, fun other shape isPrefix entry more' reached => ?_⟩
      obtain ⟨-, tail, -, inner⟩ := (reaches_cons step).mp reached
      cases shape with
      | cons slot' shape => exact unreachable slot' shape isPrefix entry tail inner
      | nil =>
        obtain ⟨-, stored, whole⟩ := reaches_nil.mp inner
        cases isPrefix with
        | true => simp [terminus, bare] at stored
        | false => simp [terminus, last (whole rfl)] at stored

theorem findSegments_some (found : findSegments rx root segs = some m) :
    ∃ shape, Reaches rx root segs shape m.isPrefixMatch m.entry m.captures := by
  cases segs with
  | nil =>
    refine ⟨[], reaches_nil.mpr ?_⟩
    simp only [findSegments, matchRootTerminus] at found
    cases stored : root.exactTerminus with
    | some entry =>
      simp only [stored, Option.some.injEq] at found
      subst found
      simp [terminus, stored]
    | none =>
      simp only [stored] at found
      obtain ⟨entry, marked, rfl⟩ := Option.map_eq_some_iff.mp found
      simp [terminus, marked]
  | cons seg segs =>
    rcases findLoop_some found with ⟨slot, shape, more, reached, same⟩ | ⟨seen, kind⟩
    · exact ⟨slot :: shape, by simpa [same] using reached⟩
    · obtain ⟨entry, marked, same⟩ := Option.map_eq_some_iff.mp seen
      simp only [Prod.mk.injEq] at same
      exact ⟨[], reaches_nil.mpr ⟨same.2.symm, by simp [terminus, kind, marked, same.1],
        by simp [kind]⟩⟩

theorem findSegments_none (missed : findSegments rx root segs = none) (shape : List (Option Str))
    (isPrefix : Bool) (entry : T) (caps : List (Str × Str)) :
    ¬ Reaches rx root segs shape isPrefix entry caps := by
  intro reached
  cases segs with
  | nil =>
    cases shape with
    | cons slot shape => exact not_reaches_nil reached
    | nil =>
      obtain ⟨-, stored, -⟩ := reaches_nil.mp reached
      simp only [findSegments, matchRootTerminus] at missed
      cases exactly : root.exactTerminus with
      | some entry => simp [exactly] at missed
      | none =>
        have bare : root.prefixTerminus = none := by simpa [exactly] using missed
        cases isPrefix with
        | true => simp [terminus, bare] at stored
        | false => simp [terminus, exactly] at stored
  | cons seg segs =>
    obtain ⟨seen, unreachable⟩ := findLoop_none missed
    have bare : root.prefixTerminus = none := by simpa using seen
    cases shape with
    | cons slot shape => exact unreachable slot shape isPrefix entry caps reached
    | nil =>
      obtain ⟨-, stored, whole⟩ := reaches_nil.mp reached
      cases isPrefix with
      | true => simp [terminus, bare] at stored
      | false => exact absurd (whole rfl) (by simp)

theorem findSegments_isSome (root : TrieNode T) (segs : List Str) :
    (findSegments rx root segs).isSome ↔
      ∃ shape isPrefix entry caps, Reaches rx root segs shape isPrefix entry caps := by
  cases result : findSegments rx root segs with
  | some m =>
    obtain ⟨shape, reached⟩ := findSegments_some result
    exact ⟨fun _ => ⟨shape, _, _, _, reached⟩, fun _ => rfl⟩
  | none =>
    refine ⟨fun impossible => by simp at impossible, ?_⟩
    rintro ⟨shape, isPrefix, entry, caps, reached⟩
    exact absurd reached (findSegments_none result shape isPrefix entry caps)

theorem nodeAt_of_follow (walk : follow rx node shape segs = some (last, caps)) :
    node.nodeAt shape = some last := by
  induction shape generalizing node segs caps with
  | nil =>
    simp only [follow, Option.some.injEq, Prod.mk.injEq] at walk
    simp [nodeAt, walk.1]
  | cons slot shape ih =>
    cases segs with
    | nil => simp [follow] at walk
    | cons seg segs =>
      cases slot with
      | some text =>
        by_cases same : text = seg
        · subst same
          simp only [follow, if_true] at walk
          obtain ⟨below, edge, rest⟩ := Option.bind_eq_some_iff.mp walk
          simp [nodeAt, next, edge, ih rest]
        · simp [follow, same] at walk
      | none =>
        by_cases literal : (node.child seg).isSome = true
        · simp [follow, literal] at walk
        · simp only [follow, literal] at walk
          obtain ⟨below, edge, rest⟩ := Option.bind_eq_some_iff.mp walk
          split at rest
          · obtain ⟨end_, inner, same⟩ := Option.map_eq_some_iff.mp rest
            simp only [Prod.mk.injEq] at same
            have deeper := ih (show follow rx below shape segs = some (last, end_.2) by
              rw [inner, ← same.1])
            simp [nodeAt, next, edge, deeper]
          · cases rest

theorem follow_isSome_cons (node : TrieNode T) (slot : Option Str) (shape : List (Option Str))
    (seg : Str) (segs : List Str) :
    (follow rx node (slot :: shape) (seg :: segs)).isSome =
      (node.enters rx seg slot &&
        (node.next slot).any fun below => (follow rx below shape segs).isSome) := by
  cases slot with
  | some text =>
    by_cases same : text = seg
    · subst same
      cases edge : node.child text <;> simp [follow, enters, next, edge]
    · simp [follow, enters, same]
  | none =>
    cases literal : node.child seg with
    | some found => simp [follow, enters, next, literal]
    | none =>
      cases edge : node.wildcardChild with
      | none => simp [follow, enters, next, literal, edge]
      | some below =>
        by_cases fits : below.accepts rx seg = true
        · simp [follow, enters, next, literal, edge, fits]
        · simp [follow, enters, next, literal, edge, fits]

theorem accepts_insertSegments (entry : T) (isPrefix : Bool) (node : TrieNode T) (pats : List Str)
    (seg : Str) :
    (insertSegments rx entry isPrefix node pats).1.accepts rx seg = node.accepts rx seg := by
  have same := label_insertSegments rx entry isPrefix node pats
  unfold accepts
  rw [(Prod.mk.inj same).2]

/-- Insertion takes from the request the shapes that the pattern shadows. -/
theorem follow_insertSegments (entry : T) (isPrefix : Bool)
    (compiles : node.firstBad rx pats = none) (there : (node.nodeAt shape).isSome) (segs : List Str) :
    (follow rx (insertSegments rx entry isPrefix node pats).1 shape segs).isSome =
      ((follow rx node shape segs).isSome && !shadows pats shape segs) := by
  induction shape generalizing node pats segs with
  | nil => cases pats <;> simp [follow, shadows]
  | cons slot shape ih =>
    cases segs with
    | nil => simp [follow]
    | cons seg segs =>
      obtain ⟨below, edge, lower⟩ : ∃ below, node.next slot = some below ∧
          (below.nodeAt shape).isSome := by
        rw [nodeAt] at there
        cases edge : node.next slot with
        | none => simp [edge] at there
        | some below => exact ⟨below, rfl, by simpa [edge] using there⟩
      cases pats with
      | nil =>
        rw [follow_isSome_cons, follow_isSome_cons, insertSegments]
        cases slot <;> simp [enters, shadows]
      | cons pat pats =>
        rw [firstBad] at compiles
        by_cases stop : node.blocked rx pat = true
        · simp [stop] at compiles
        rw [if_neg stop] at compiles
        rw [insertSegments_cons, if_neg stop, follow_isSome_cons, follow_isSome_cons]
        by_cases shared : slot = slotOf pat
        · subst shared
          rw [edge, Option.getD_some] at compiles ⊢
          rw [shadows, if_pos rfl]
          have deeper := ih compiles lower segs
          cases wild : slotOf pat with
          | none => simp [enters, wild ▸ edge, accepts_insertSegments, deeper, Bool.and_assoc]
          | some text => simp [enters, deeper, Bool.and_assoc]
        · rw [shadows, if_neg shared]
          cases slot with
          | some text => simp [enters, shared]
          | none =>
            by_cases here : slotOf pat = some seg
            · simp [enters, here]
            · simp [enters, shared, here, Ne.symm here]

theorem follow_insertSegments_self (entry : T) (isPrefix : Bool)
    (compiles : node.firstBad rx pats = none) (segs : List Str) :
    (follow rx (insertSegments rx entry isPrefix node pats).1 (shapeOf pats) segs).isSome =
      node.admits rx pats segs := by
  induction pats generalizing node segs with
  | nil => simp [follow, admits]
  | cons pat pats ih =>
    cases segs with
    | nil => simp [follow, admits]
    | cons seg segs =>
      rw [firstBad] at compiles
      by_cases stop : node.blocked rx pat = true
      · simp [stop] at compiles
      rw [if_neg stop] at compiles
      have deeper := ih compiles segs
      rw [insertSegments_cons, if_neg stop, shapeOf_cons, follow_isSome_cons, admits]
      by_cases wild : isWildcardSegment pat = true
      · rw [slotOf_wildcard wild] at deeper ⊢
        simp [enters, wild, accepts_insertSegments, deeper]
      · rw [slotOf_literal (by simpa using wild)] at deeper ⊢
        simp [enters, wild, deeper]

theorem Reaches.terminusAt (reached : Reaches rx root segs shape isPrefix entry caps) :
    root.terminusAt shape isPrefix = some entry := by
  obtain ⟨last, walk, stored, -⟩ := reached
  simp [TrieNode.terminusAt, nodeAt_of_follow walk, stored]

theorem exists_reaches_iff :
    (∃ caps, Reaches rx node segs shape false entry caps) ↔
      descend rx node segs = some shape ∧ node.terminusAt shape false = some entry := by
  induction segs generalizing node shape with
  | nil =>
    cases shape with
    | nil => simp [reaches_nil, descend]
    | cons slot shape => simp [Reaches, follow, descend]
  | cons seg segs ih =>
    cases taken : stepToChild rx node seg [] with
    | none =>
      rw [descend_of_no_step taken]
      cases shape with
      | nil => simp [reaches_nil]
      | cons slot shape => simp [Reaches, follow_of_no_step taken]
    | some pair =>
      obtain ⟨below, caps'⟩ := pair
      obtain ⟨slot, more, -, edge, deeper, step⟩ := follow_of_step taken
      rw [deeper]
      cases shape with
      | nil => simp [reaches_nil]
      | cons other shape =>
        simp only [reaches_cons step, Option.map_eq_some_iff, List.cons.injEq]
        constructor
        · rintro ⟨caps, rfl, tail, -, reached⟩
          obtain ⟨walk, stored⟩ := ih.mp ⟨tail, reached⟩
          exact ⟨⟨shape, walk, rfl, rfl⟩, by rw [terminusAt_cons, edge, Option.bind_some, stored]⟩
        · rintro ⟨⟨shape', walk, rfl, rfl⟩, stored⟩
          rw [terminusAt_cons, edge, Option.bind_some] at stored
          obtain ⟨tail, reached⟩ := ih.mpr ⟨walk, stored⟩
          exact ⟨more ++ tail, rfl, tail, rfl, reached⟩

/-- Without prefix routes `find` answers with the terminus its descent ends at. -/
theorem findSegments_of_no_prefix {root : TrieNode T}
    (exactOnly : ∀ shape, root.terminusAt shape true = none) (segs : List Str) :
    (∀ m, findSegments rx root segs = some m → m.isPrefixMatch = false) ∧
      (findSegments rx root segs).map (·.entry) =
        (descend rx root segs).bind fun shape => root.terminusAt shape false := by
  cases result : findSegments rx root segs with
  | some m =>
    obtain ⟨shape, reached⟩ := findSegments_some result
    cases kind : m.isPrefixMatch with
    | true =>
      have stored := reached.terminusAt
      rw [kind, exactOnly shape] at stored
      cases stored
    | false =>
      rw [kind] at reached
      obtain ⟨walk, stored⟩ := exists_reaches_iff.mp ⟨_, reached⟩
      refine ⟨fun m' same => ?_, ?_⟩
      · cases same
        exact kind
      · rw [walk, Option.bind_some, stored]
        rfl
  | none =>
    refine ⟨fun m same => (nomatch same), ?_⟩
    cases walk : descend rx root segs with
    | none => rfl
    | some shape =>
      cases stored : root.terminusAt shape false with
      | none => simp [stored]
      | some entry =>
        obtain ⟨caps, reached⟩ := exists_reaches_iff.mpr ⟨walk, stored⟩
        exact absurd reached (findSegments_none result shape false entry caps)

/-- Every node on the way of the pattern is there, with the name and constraint
    of the pattern's own segment. -/
def carries : TrieNode T → List Str → Bool
  | _, [] => true
  | node, seg :: segs =>
    match node.next (slotOf seg) with
    | none => false
    | some below => decide (below.label = labelOf seg) && carries below segs

def agreesWith : TrieNode T → List Str → Bool
  | _, [] => true
  | node, seg :: segs =>
    match node.next (slotOf seg) with
    | none => true
    | some below => decide (below.label = labelOf seg) && agreesWith below segs

theorem carries_cons :
    node.carries (seg :: segs) = true ↔
      ∃ below, node.next (slotOf seg) = some below ∧ below.label = labelOf seg ∧
        below.carries segs = true := by
  rw [carries]
  cases node.next (slotOf seg) with
  | none => simp
  | some below => simp

theorem carries_congr {other : TrieNode T} (edges : ∀ slot, node.next slot = other.next slot)
    (segs : List Str) : node.carries segs = other.carries segs := by
  cases segs with
  | nil => rfl
  | cons seg segs => rw [carries, carries, edges]

theorem label_fresh (seg : Str) : (fresh seg : TrieNode T).label = labelOf seg := rfl

theorem agreesWith_leaf (leaf : ∀ slot, node.next slot = none) (segs : List Str) :
    node.agreesWith segs = true := by
  cases segs with
  | nil => rfl
  | cons seg segs => rw [agreesWith, leaf]

section
variable (rx : RegexEngine) (entry : T) (isPrefix : Bool)

theorem carries_insertSegments_self {node : TrieNode T} {segs : List Str}
    (compiles : node.firstBad rx segs = none) (agrees : node.agreesWith segs = true) :
    (insertSegments rx entry isPrefix node segs).1.carries segs = true := by
  induction segs generalizing node with
  | nil => rfl
  | cons seg segs ih =>
    rw [firstBad] at compiles
    rw [insertSegments_cons]
    by_cases stop : node.blocked rx seg = true
    · simp [stop] at compiles
    · simp only [stop, Bool.false_eq_true, if_false] at compiles ⊢
      refine carries_cons.mpr ⟨_, by rw [next_setNext, if_pos rfl], ?_, ?_⟩
      · rw [label_insertSegments]
        cases edge : node.next (slotOf seg) with
        | none => exact label_fresh seg
        | some below =>
          rw [agreesWith, edge] at agrees
          simpa using (Bool.and_eq_true_iff.mp agrees).1
      · refine ih compiles ?_
        cases edge : node.next (slotOf seg) with
        | none => exact agreesWith_leaf (next_fresh seg) segs
        | some below =>
          rw [agreesWith, edge] at agrees
          exact (Bool.and_eq_true_iff.mp agrees).2

theorem carries_insertSegments {node : TrieNode T} {pats : List Str}
    (carried : node.carries pats = true) (segs : List Str) :
    (insertSegments rx entry isPrefix node segs).1.carries pats = true := by
  induction pats generalizing node segs with
  | nil => rfl
  | cons pat pats ih =>
    obtain ⟨below, edge, label, rest⟩ := carries_cons.mp carried
    cases segs with
    | nil =>
      rw [insertSegments, carries_congr fun slot => next_setTerminus node (some entry) isPrefix slot]
      exact carried
    | cons seg segs =>
      rw [insertSegments_cons]
      refine carries_cons.mpr ?_
      by_cases stop : node.blocked rx seg = true
      · -- a wildcard node is created, so the pattern's edge is another one
        obtain ⟨-, missing⟩ := next_of_blocked stop
        have apart : slotOf pat ≠ none := by
          intro wild
          rw [wild, missing] at edge
          cases edge
        exact ⟨below, by simp [stop, apart, edge], label, rest⟩
      · simp only [stop, Bool.false_eq_true, if_false, next_setNext]
        by_cases shared : slotOf pat = slotOf seg
        · rw [if_pos shared]
          refine ⟨_, rfl, ?_, ?_⟩
          · rw [← shared, edge]
            simpa using label
          · rw [← shared, edge]
            exact ih rest segs
        · rw [if_neg shared]
          exact ⟨below, edge, label, rest⟩

end

theorem label_removeSegments (tidy : node.Tidy) (isPrefix : Bool) (segs : List Str) :
    (removeSegments isPrefix node segs).label = node.label := by
  cases segs with
  | nil => simp [removeSegments]
  | cons seg segs =>
    rw [removeSegments_cons tidy]
    cases node.next (slotOf seg) with
    | none => rfl
    | some below => simp

theorem carries_removeSegments (tidy : node.Tidy) (isPrefix : Bool)
    (carried : node.carries pats = true) (segs : List Str) :
    (removeSegments isPrefix node segs).carries pats = true := by
  induction pats generalizing node segs with
  | nil => rfl
  | cons pat pats ih =>
    obtain ⟨below, edge, label, rest⟩ := carries_cons.mp carried
    cases segs with
    | nil =>
      rw [removeSegments, carries_congr fun slot => next_setTerminus node none isPrefix slot]
      exact carried
    | cons seg segs =>
      rw [removeSegments_cons tidy]
      refine carries_cons.mpr ?_
      cases reached : node.next (slotOf seg) with
      | none => exact ⟨below, edge, label, rest⟩
      | some next =>
        simp only [Option.elim, next_setNext]
        by_cases shared : slotOf pat = slotOf seg
        · rw [shared, reached] at edge
          cases edge
          rw [if_pos shared]
          exact ⟨_, rfl, (label_removeSegments (tidy.next reached) isPrefix segs).trans label,
            ih (tidy.next reached) rest segs⟩
        · rw [if_neg shared]
          exact ⟨below, edge, label, rest⟩

/-- A pattern that owns its labels is matched by every request that follows its
    shape, and its captures are those of the walk. -/
theorem patternMatch_of_follow (walk : follow rx node (shapeOf pats) segs = some (last, caps))
    (carried : node.carries pats = true) (whole : isPrefix = false → pats.length = segs.length) :
    patternMatch rx isPrefix pats segs = some caps := by
  induction pats generalizing node segs caps with
  | nil =>
    simp only [shapeOf_nil, follow, Option.some.injEq, Prod.mk.injEq] at walk
    have complete : isPrefix = true ∨ segs = [] := by
      cases isPrefix with
      | true => exact Or.inl rfl
      | false => exact Or.inr (List.length_eq_zero_iff.mp (whole rfl).symm)
    rw [patternMatch, if_pos complete, walk.2]
  | cons pat pats ih =>
    obtain ⟨below, edge, label, rest⟩ := carries_cons.mp carried
    cases segs with
    | nil => simp [follow] at walk
    | cons seg segs =>
      have shorter : isPrefix = false → pats.length = segs.length :=
        fun exact_ => Nat.succ.inj (whole exact_)
      by_cases wild : isWildcardSegment pat = true
      · rw [shapeOf_cons, slotOf_wildcard wild] at walk
        rw [slotOf_wildcard wild, next] at edge
        by_cases literal : (node.child seg).isSome = true
        · simp [follow, literal] at walk
        · simp only [follow, literal, edge, Option.bind_some] at walk
          by_cases fits : below.accepts rx seg = true
          · simp only [fits, if_true] at walk
            obtain ⟨end_, inner, same⟩ := Option.map_eq_some_iff.mp walk
            simp only [Prod.mk.injEq] at same
            have tail := @ih below end_.2 segs (by rw [inner, ← same.1]) rest shorter
            simp only [TrieNode.label, labelOf, wild, if_true, Prod.mk.injEq] at label
            have accepted : (parseWildcard pat).2 = [] ∨
                rx.regexMatch seg (parseWildcard pat).2 = true := by
              by_cases plain : (parseWildcard pat).2 = []
              · exact Or.inl plain
              · rw [if_neg plain] at label
                exact Or.inr (by simpa [accepts, label.2] using fits)
            rw [patternMatch, if_pos wild, if_pos accepted, tail, ← same.2, ← label.1]
            rfl
          · simp [fits] at walk
      · have literal : isWildcardSegment pat = false := by simpa using wild
        rw [shapeOf_cons, slotOf_literal literal] at walk
        rw [slotOf_literal literal, next] at edge
        by_cases same : pat = seg
        · subst same
          simp only [follow, if_true, edge, Option.bind_some] at walk
          rw [patternMatch, if_neg wild, if_pos rfl]
          exact ih walk rest shorter
        · simp [follow, same] at walk

end TrieNode
end HttpServer
