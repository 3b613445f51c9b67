import HttpServer.UrlPath

/-!
The per-segment trie behind parameterised and prefix routes. A compiled
`std::regex` is kept as its source text; the engine that compiles and matches
such texts is a parameter and nothing is assumed about it. `insert` returns
the node it leaves behind together with the error it may have thrown, since
the nodes created before a constraint fails to compile stay in the trie.
-/
namespace HttpServer
open Fields

/-- `std::regex` with the flags `extended | icase | nosubs`. -/
structure RegexEngine where
  compiles : Str → Bool
  regexMatch : Str → Str → Bool

structure TrieNode (T : Type) where
  children : List (Str × TrieNode T)
  wildcardChild : Option (TrieNode T)
  wildcardName : Str
  wildcardConstraint : Option Str
  exactTerminus : Option T
  prefixTerminus : Option T

structure TrieMatch (T : Type) where
  entry : T
  captures : List (Str × Str)
  isPrefixMatch : Bool
  deriving DecidableEq, Repr

def poppedSegments (path : Str) : List Str := fields '/' (skipLeadingSlash path)

def isWildcardSegment (seg : Str) : Bool :=
  seg.length ≥ 2 && seg.head? = some '{' && seg.getLast? = some '}'

/-- `{name|regex}` split at the first bar; the regex is empty without one. -/
def parseWildcard (seg : Str) : Str × Str :=
  let inner := seg.tail.dropLast
  if '|' ∈ seg then
    (inner.takeWhile (fun c => !decide (c = '|')),
      (inner.dropWhile (fun c => !decide (c = '|'))).tail)
  else (inner, [])

namespace TrieNode
variable {T : Type}

def empty : TrieNode T where
  children := []
  wildcardChild := none
  wildcardName := []
  wildcardConstraint := none
  exactTerminus := none
  prefixTerminus := none

def child (node : TrieNode T) (seg : Str) : Option (TrieNode T) := node.children.lookup seg

def setChild (node : TrieNode T) (seg : Str) (child : TrieNode T) : TrieNode T :=
  { node with
    children :=
      if node.children.any (fun kv => kv.1 = seg) then
        node.children.map fun kv => if kv.1 = seg then (seg, child) else kv
      else node.children ++ [(seg, child)] }

def setTerminus (node : TrieNode T) (entry : Option T) (isPrefix : Bool) : TrieNode T :=
  if isPrefix then { node with prefixTerminus := entry } else { node with exactTerminus := entry }

def terminus (node : TrieNode T) (isPrefix : Bool) : Option T :=
  if isPrefix then node.prefixTerminus else node.exactTerminus

/-- `insert` from `node` down; `some source` is the constraint that failed to
    compile. An existing wildcard child keeps its name and constraint. -/
def insertSegments (rx : RegexEngine) (entry : T) (isPrefix : Bool) :
    TrieNode T → List Str → TrieNode T × Option Str
  | node, [] => (node.setTerminus (some entry) isPrefix, none)
  | node, seg :: segs =>
    if isWildcardSegment seg then
      let (name, constraintSrc) := parseWildcard seg
      match node.wildcardChild with
      | some child =>
        let (child, thrown) := insertSegments rx entry isPrefix child segs
        ({ node with wildcardChild := some child }, thrown)
      | none =>
        if constraintSrc = [] then
          let (child, thrown) :=
            insertSegments rx entry isPrefix { empty with wildcardName := name } segs
          ({ node with wildcardChild := some child }, thrown)
        else if rx.compiles constraintSrc then
          let (child, thrown) := insertSegments rx entry isPrefix
            { empty with wildcardName := name, wildcardConstraint := some constraintSrc } segs
          ({ node with wildcardChild := some child }, thrown)
        else
          ({ node with wildcardChild := some { empty with wildcardName := name } },
            some constraintSrc)
    else
      let (child, thrown) := insertSegments rx entry isPrefix ((node.child seg).getD empty) segs
      (node.setChild seg child, thrown)

def insert (rx : RegexEngine) (root : TrieNode T) (path : Str) (entry : T) (isPrefix : Bool) :
    TrieNode T × Option Str :=
  insertSegments rx entry isPrefix root (tokenizeUrl path)

def matchRootTerminus (root : TrieNode T) : Option (TrieMatch T) :=
  match root.exactTerminus with
  | some entry => some ⟨entry, [], false⟩
  | none => root.prefixTerminus.map fun entry => ⟨entry, [], true⟩

def stepToChild (rx : RegexEngine) (node : TrieNode T) (seg : Str) (caps : List (Str × Str)) :
    Option (TrieNode T × List (Str × Str)) :=
  match node.child seg with
  | some next => some (next, caps)
  | none =>
    match node.wildcardChild with
    | none => none
    | some candidate =>
      match candidate.wildcardConstraint with
      | some re =>
        if rx.regexMatch seg re then some (candidate, caps ++ [(candidate.wildcardName, seg)])
        else none
      | none => some (candidate, caps ++ [(candidate.wildcardName, seg)])

def findLoop (rx : RegexEngine) :
    TrieNode T → List Str → List (Str × Str) → Option (T × List (Str × Str)) →
      Option (TrieMatch T)
  | _, [], _, best => best.map fun (entry, caps) => ⟨entry, caps, true⟩
  | node, seg :: rest, caps, best =>
    match stepToChild rx node seg caps with
    | none => best.map fun (entry, caps) => ⟨entry, caps, true⟩
    | some (next, caps) =>
      let best := match next.prefixTerminus with
        | some entry => some (entry, caps)
        | none => best
      match rest, next.exactTerminus with
      | [], some entry => some ⟨entry, caps, false⟩
      | _, _ => findLoop rx next rest caps best

def findSegments (rx : RegexEngine) (root : TrieNode T) : List Str → Option (TrieMatch T)
  | [] => matchRootTerminus root
  | segs => findLoop rx root segs [] (root.prefixTerminus.map fun entry => (entry, []))

def find (rx : RegexEngine) (root : TrieNode T) (path : Str) : Option (TrieMatch T) :=
  findSegments rx root (poppedSegments path)

/-- `walk_registered_pattern_`: the node of a registered pattern. -/
def walkRegisteredPattern : TrieNode T → List Str → Option (TrieNode T)
  | node, [] => some node
  | node, seg :: segs =>
    match node.child seg with
    | some next => walkRegisteredPattern next segs
    | none =>
      match node.wildcardChild with
      | some next => if isWildcardSegment seg then walkRegisteredPattern next segs else none
      | none => none

def hasTerminusAt (root : TrieNode T) (path : Str) (isPrefix : Bool) : Bool :=
  match walkRegisteredPattern root (tokenizeUrl path) with
  | none => false
  | some node => (node.terminus isPrefix).isSome

/-- `remove`: the same walk, clearing the terminus it ends at. Emptied branches
    stay in place. -/
def removeSegments (isPrefix : Bool) : TrieNode T → List Str → TrieNode T
  | node, [] => node.setTerminus none isPrefix
  | node, seg :: segs =>
    match node.child seg with
    | some next => node.setChild seg (removeSegments isPrefix next segs)
    | none =>
      match node.wildcardChild with
      | some next =>
        if isWildcardSegment seg then
          { node with wildcardChild := some (removeSegments isPrefix next segs) }
        else node
      | none => node

def remove (root : TrieNode T) (path : Str) (isPrefix : Bool) : TrieNode T :=
  removeSegments isPrefix root (tokenizeUrl path)

end TrieNode

@[simp] theorem CanonicalPath.poppedSegments_text (c : CanonicalPath) :
    poppedSegments c.text = c.segments := by
  simp only [poppedSegments, CanonicalPath.text, skipLeadingSlash, c.fields_body]

end HttpServer
