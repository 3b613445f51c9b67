import HttpServer.TriePatterns

/-!
The trie under arbitrary sequences of `insert`, `remove` and `has_terminus_at`:
a finite map from keys to entries. A key is a pattern with its wildcard segments
blurred into one, together with the kind of its terminus. The calls are kept
newest first with what they returned, and what the map holds is read off them.
-/
namespace HttpServer

structure TrieKey where
  shape : List (Option Str)
  isPrefix : Bool
  deriving DecidableEq, Repr

def trieKey (path : Str) (isPrefix : Bool) : TrieKey := ⟨shapeOf (tokenizeUrl path), isPrefix⟩

inductive TrieCall (T : Type) where
  | insert (path : Str) (entry : T) (isPrefix : Bool)
  | remove (path : Str) (isPrefix : Bool)
  | hasTerminusAt (path : Str) (isPrefix : Bool)

/-- A call and what it returned; an `insert` returns when it does not throw. -/
structure TrieEvent (T : Type) where
  call : TrieCall T
  returned : Bool

namespace TrieCall
variable {T : Type}

def key : TrieCall T → TrieKey
  | insert path _ isPrefix => trieKey path isPrefix
  | remove path isPrefix => trieKey path isPrefix
  | hasTerminusAt path isPrefix => trieKey path isPrefix

def Compiles (rx : RegexEngine) : TrieCall T → Prop
  | insert path _ _ => ∀ seg ∈ tokenizeUrl path, isWildcardSegment seg = true →
      (parseWildcard seg).2 = [] ∨ rx.compiles (parseWildcard seg).2 = true
  | _ => True

end TrieCall

namespace TrieEvent
variable {T : Type}

def changes (key : TrieKey) (event : TrieEvent T) : Bool :=
  match event.call with
  | .insert _ _ _ => event.call.key = key && event.returned
  | .remove _ _ => event.call.key = key && event.returned
  | .hasTerminusAt _ _ => false

def entry (event : TrieEvent T) : Option T :=
  match event.call with
  | .insert _ entry _ => some entry
  | _ => none

def LatestIsInsert (key : TrieKey) (trace : List (TrieEvent T)) : Prop :=
  ∃ path entry isPrefix returned,
    trace.find? (changes key) = some ⟨.insert path entry isPrefix, returned⟩

def latestEntry (key : TrieKey) (trace : List (TrieEvent T)) : Option T :=
  (trace.find? (changes key)).bind entry

theorem isSome_latestEntry (key : TrieKey) (trace : List (TrieEvent T)) :
    (latestEntry key trace).isSome = true ↔ LatestIsInsert key trace := by
  unfold latestEntry LatestIsInsert
  cases trace.find? (changes key) with
  | none => simp
  | some event =>
    obtain ⟨call, returned⟩ := event
    cases call with
    | insert path entry isPrefix => simp [TrieEvent.entry]
    | remove path isPrefix => simp [TrieEvent.entry]
    | hasTerminusAt path isPrefix => simp [TrieEvent.entry]

theorem latestEntry_cons (key : TrieKey) (event : TrieEvent T) (trace : List (TrieEvent T)) :
    latestEntry key (event :: trace) =
      if event.changes key then event.entry else latestEntry key trace := by
  unfold latestEntry
  rw [List.find?_cons]
  cases event.changes key with
  | true => rfl
  | false => rfl

end TrieEvent

namespace TrieNode
variable {T : Type}
open TrieEvent

def removeTerminus (root : TrieNode T) (path : Str) (isPrefix : Bool) : TrieNode T × Bool :=
  match root.walkRegisteredPattern (tokenizeUrl path) with
  | none => (root, false)
  | some node =>
    if (node.terminus isPrefix).isSome then (root.remove path isPrefix, true) else (root, false)

def answer (rx : RegexEngine) (root : TrieNode T) : TrieCall T → TrieNode T × Bool
  | .insert path entry isPrefix =>
    ((root.insert rx path entry isPrefix).1, (root.insert rx path entry isPrefix).2.isNone)
  | .remove path isPrefix => root.removeTerminus path isPrefix
  | .hasTerminusAt path isPrefix => (root, root.hasTerminusAt path isPrefix)

def record (rx : RegexEngine) (state : TrieNode T × List (TrieEvent T)) (call : TrieCall T) :
    TrieNode T × List (TrieEvent T) :=
  ((state.1.answer rx call).1, ⟨call, (state.1.answer rx call).2⟩ :: state.2)

def run (rx : RegexEngine) (calls : List (TrieCall T)) : TrieNode T × List (TrieEvent T) :=
  calls.foldl (record rx) (empty, [])

theorem firstBad_of_compiles {rx : RegexEngine} {segs : List Str} (node : TrieNode T)
    (compile : ∀ seg ∈ segs, isWildcardSegment seg = true →
      (parseWildcard seg).2 = [] ∨ rx.compiles (parseWildcard seg).2 = true) :
    node.firstBad rx segs = none := by
  induction segs generalizing node with
  | nil => rfl
  | cons seg segs ih =>
    have open_ : node.blocked rx seg = false := by
      by_contra stop
      simp only [blocked, Bool.not_eq_false, Bool.and_eq_true, Bool.not_eq_true',
        decide_eq_false_iff_not] at stop
      rcases compile seg List.mem_cons_self stop.1.1.1 with plain | compiles
      · exact stop.1.2 plain
      · rw [compiles] at stop
        cases stop.2
    rw [firstBad, open_]
    exact ih _ fun other listed => compile other (List.mem_cons_of_mem seg listed)

theorem removeSegments_absent {node : TrieNode T} (tidy : node.Tidy) {isPrefix : Bool}
    {segs : List Str} (absent : node.terminusAt (shapeOf segs) isPrefix = none) :
    removeSegments isPrefix node segs = node := by
  induction segs generalizing node with
  | nil =>
    obtain ⟨children, wildcardChild, wildcardName, wildcardConstraint, exactly, prefixed⟩ := node
    cases isPrefix with
    | false =>
      have empty : exactly = none := absent
      subst empty
      rfl
    | true =>
      have empty : prefixed = none := absent
      subst empty
      rfl
  | cons seg segs ih =>
    rw [removeSegments_cons tidy]
    rw [shapeOf_cons, terminusAt_cons] at absent
    cases edge : node.next (slotOf seg) with
    | none => rfl
    | some below =>
      rw [edge] at absent
      rw [Option.elim_some, ih (tidy.next edge) absent, tidy.setNext_next edge]

variable {root : TrieNode T}

theorem removeTerminus_eq (tidy : root.Tidy) (path : Str) (isPrefix : Bool) :
    root.removeTerminus path isPrefix =
      (root.remove path isPrefix, root.hasTerminusAt path isPrefix) := by
  have present := hasTerminusAt_eq tidy path isPrefix
  have unchanged : root.terminusAt (shapeOf (tokenizeUrl path)) isPrefix = none →
      root.remove path isPrefix = root := removeSegments_absent tidy
  rw [present, removeTerminus, walkRegisteredPattern_eq tidy]
  rw [terminusAt] at unchanged ⊢
  cases reached : root.nodeAt (shapeOf (tokenizeUrl path)) with
  | none =>
    rw [reached] at unchanged
    simp [unchanged]
  | some node =>
    rw [reached] at unchanged
    cases stored : node.terminus isPrefix with
    | none => simp [stored, unchanged]
    | some entry => simp [stored]

variable (rx : RegexEngine)

theorem Tidy.answer (tidy : root.Tidy) (call : TrieCall T) : (root.answer rx call).1.Tidy := by
  cases call with
  | insert path entry isPrefix => exact tidy.insertSegments rx entry isPrefix _
  | remove path isPrefix =>
    rw [TrieNode.answer, removeTerminus_eq tidy]
    exact tidy.removeSegments isPrefix _
  | hasTerminusAt path isPrefix => exact tidy

theorem terminusAt_answer_other (tidy : root.Tidy) {call : TrieCall T} {key : TrieKey}
    (other : call.key ≠ key) :
    (root.answer rx call).1.terminusAt key.shape key.isPrefix =
      root.terminusAt key.shape key.isPrefix := by
  have apart {path : Str} {isPrefix : Bool} (differ : trieKey path isPrefix ≠ key) :
      ¬(key.shape = shapeOf (tokenizeUrl path) ∧ key.isPrefix = isPrefix) := by
    rintro ⟨shape, kind⟩
    exact differ (by rw [trieKey, ← shape, ← kind])
  cases call with
  | insert path entry isPrefix =>
    refine (terminusAt_insertSegments rx entry isPrefix root _ _ _).trans (if_neg ?_)
    intro written
    exact apart other written.2
  | remove path isPrefix =>
    rw [answer, removeTerminus_eq tidy]
    exact (terminusAt_removeSegments tidy isPrefix _ _ _).trans (if_neg (apart other))
  | hasTerminusAt path isPrefix => rfl

theorem terminusAt_answer_same (tidy : root.Tidy) (call : TrieCall T) :
    (root.answer rx call).1.terminusAt call.key.shape call.key.isPrefix =
      if TrieEvent.changes call.key ⟨call, (root.answer rx call).2⟩ then
        TrieEvent.entry ⟨call, (root.answer rx call).2⟩
      else root.terminusAt call.key.shape call.key.isPrefix := by
  cases call with
  | insert path entry isPrefix =>
    have thrown := insertSegments_thrown rx entry isPrefix root (tokenizeUrl path)
    refine (terminusAt_insertSegments rx entry isPrefix root _ _ _).trans ?_
    simp [answer, insert, thrown, TrieCall.key, trieKey, TrieEvent.changes, TrieEvent.entry]
  | remove path isPrefix =>
    rw [answer, removeTerminus_eq tidy]
    refine (terminusAt_removeSegments tidy isPrefix _ _ _).trans ?_
    have present := hasTerminusAt_eq tidy path isPrefix
    cases stored : root.terminusAt (shapeOf (tokenizeUrl path)) isPrefix with
    | none => simp [present, stored, TrieCall.key, trieKey, TrieEvent.changes]
    | some entry =>
      simp [present, stored, TrieCall.key, trieKey, TrieEvent.changes, TrieEvent.entry]
  | hasTerminusAt path isPrefix => simp [answer, TrieEvent.changes]

structure Follows (state : TrieNode T × List (TrieEvent T)) : Prop where
  tidy : state.1.Tidy
  stored : ∀ key, state.1.terminusAt key.shape key.isPrefix = latestEntry key state.2

theorem Follows.record {state : TrieNode T × List (TrieEvent T)} (follows : Follows state)
    (call : TrieCall T) : Follows (TrieNode.record rx state call) := by
  refine ⟨follows.tidy.answer rx call, ?_⟩
  intro key
  rw [TrieNode.record, latestEntry_cons, ← follows.stored key]
  by_cases same : call.key = key
  · rw [← same]
    exact terminusAt_answer_same rx follows.tidy call
  · have untouched : TrieEvent.changes key ⟨call, (state.1.answer rx call).2⟩ = false := by
      cases call with
      | insert path entry isPrefix => simp [TrieEvent.changes, same]
      | remove path isPrefix => simp [TrieEvent.changes, same]
      | hasTerminusAt path isPrefix => rfl
    rw [untouched]
    exact terminusAt_answer_other rx follows.tidy same

theorem follows_run (calls : List (TrieCall T)) : Follows (run rx calls) := by
  have start : Follows ((empty, []) : TrieNode T × List (TrieEvent T)) := by
    refine ⟨tidy_leaf rfl rfl, fun key => ?_⟩
    exact terminusAt_bare next_empty (fun isPrefix => by cases isPrefix <;> rfl) _ _
  exact List.foldlRecOn calls (TrieNode.record rx) start
    fun state follows call _ => follows.record rx call

def InsertsReturn (rx : RegexEngine) (trace : List (TrieEvent T)) : Prop :=
  ∀ event ∈ trace, (∃ path entry isPrefix, event.call = .insert path entry isPrefix) →
    event.call.Compiles rx → event.returned = true

theorem insertsReturn_run (calls : List (TrieCall T)) : InsertsReturn rx (run rx calls).2 := by
  have start : InsertsReturn rx ((empty, []) : TrieNode T × List (TrieEvent T)).2 :=
    fun event listed => nomatch listed
  refine List.foldlRecOn (motive := fun state => InsertsReturn rx state.2) calls
    (TrieNode.record rx) start ?_
  intro state earlier call _ event listed insertion compiles
  rcases List.mem_cons.mp listed with rfl | older
  · obtain ⟨path, entry, isPrefix, rfl⟩ := insertion
    have thrown := insertSegments_thrown rx entry isPrefix state.1 (tokenizeUrl path)
    rw [firstBad_of_compiles state.1 compiles] at thrown
    simp [answer, insert, thrown]
  · exact earlier event older insertion compiles

structure FiniteMap (rx : RegexEngine) (state : TrieNode T × List (TrieEvent T)) : Prop where
  inserts : InsertsReturn rx state.2
  entry : ∀ key, state.1.terminusAt key.shape key.isPrefix = latestEntry key state.2
  has : ∀ path isPrefix, state.1.hasTerminusAt path isPrefix = true ↔
    LatestIsInsert (trieKey path isPrefix) state.2
  removes : ∀ path isPrefix, (state.1.removeTerminus path isPrefix).2 = true ↔
    LatestIsInsert (trieKey path isPrefix) state.2
  others : ∀ (call : TrieCall T) key, call.key ≠ key →
    (state.1.answer rx call).1.terminusAt key.shape key.isPrefix =
      state.1.terminusAt key.shape key.isPrefix

/-- After every sequence of calls the trie is the finite map of its history. -/
theorem trie_is_finite_map (rx : RegexEngine) (calls : List (TrieCall T)) :
    FiniteMap rx (run rx calls) := by
  have follows := follows_run rx calls
  have present : ∀ path isPrefix, (run rx calls).1.hasTerminusAt path isPrefix = true ↔
      LatestIsInsert (trieKey path isPrefix) (run rx calls).2 := by
    intro path isPrefix
    rw [hasTerminusAt_eq follows.tidy, ← isSome_latestEntry, ← follows.stored]
    rfl
  refine ⟨insertsReturn_run rx calls, follows.stored, present, ?_,
    fun call key => terminusAt_answer_other rx follows.tidy⟩
  intro path isPrefix
  rw [removeTerminus_eq follows.tidy]
  exact present path isPrefix

end TrieNode

end HttpServer
