import HttpServer.AuthGate

/-!
The pieces of the request path. `get_path_pieces` and `get_path_piece` split the
path on the first read and keep the result, while the path itself is assigned
only when the last call completes the request. A read in a `request_received`
or `body_chunk` hook therefore splits the empty path for good.
-/
namespace HttpServer
open Effect

structure PathCache where
  path : Str := []
  pathPiecesCached : List Str := []
  pathPiecesCacheBuilt : Bool := false
  deriving DecidableEq, Repr

inductive PathRead where
  | getPathPieces
  | getPathPiece (index : Int)
  deriving DecidableEq, Repr

inductive PathAnswer where
  | pieces (all : List Str)
  | piece (one : Str)
  | outOfRange
  deriving DecidableEq, Repr

inductive PathOp where
  | setPath (path : Str)
  | read (r : PathRead)
  deriving DecidableEq, Repr

def sizeAsInt (n : Nat) : Int :=
  if n % 4294967296 < 2147483648 then (n % 4294967296 : Nat)
  else (n % 4294967296 : Nat) - 4294967296

namespace PathCache

def setPath (s : PathCache) (path : Str) : PathCache := { s with path := path }

def ensurePathPiecesCached (s : PathCache) : PathCache :=
  if s.pathPiecesCacheBuilt then s
  else { s with pathPiecesCached := tokenizeUrl s.path, pathPiecesCacheBuilt := true }

/-- An index into the cached vector; a negative one becomes a huge `size_t`. -/
def pieceAt (pieces : List Str) (index : Int) : PathAnswer :=
  if index < 0 then .outOfRange
  else match pieces[index.toNat]? with
    | some one => .piece one
    | none => .outOfRange

def getPathPieces (s : PathCache) : PathCache × PathAnswer :=
  let s := s.ensurePathPiecesCached
  (s, .pieces s.pathPiecesCached)

def getPathPiece (s : PathCache) (index : Int) : PathCache × PathAnswer :=
  let s := s.ensurePathPiecesCached
  if sizeAsInt s.pathPiecesCached.length > index then (s, pieceAt s.pathPiecesCached index)
  else (s, .piece [])

def read (s : PathCache) : PathRead → PathCache × PathAnswer
  | .getPathPieces => s.getPathPieces
  | .getPathPiece index => s.getPathPiece index

def step (s : PathCache) : PathOp → PathCache
  | .setPath path => s.setPath path
  | .read r => (s.read r).1

def wanted (path : Str) : PathRead → PathAnswer
  | .getPathPieces => .pieces (tokenizeUrl path)
  | .getPathPiece index =>
    .piece (if index < 0 then [] else ((tokenizeUrl path)[index.toNat]?).getD [])

def Follows (s : PathCache) : PathOp → Prop
  | .setPath _ => True
  | .read r => (s.read r).2 = wanted s.path r

/-- The life of a request: `early` are the reads of `request_received` and
    `body_chunk` hooks, then `complete_request` sets the path, and `later` are
    the reads of every other hook and of the handlers. -/
def life (path : Str) (early later : List PathRead) : List PathOp :=
  early.map .read ++ .setPath path :: later.map .read

end PathCache

/-- The one-sided comparison is enough for this read of so many pieces. Below
    2^31 pieces this says that the index is not negative. -/
def PathRead.Bounded (count : Nat) : PathRead → Prop
  | .getPathPieces => True
  | .getPathPiece index =>
    (0 ≤ index → index < count → index < sizeAsInt count) ∧ (index < 0 → sizeAsInt count ≤ index)

def PathRead.Beyond (count : Nat) : PathRead → Prop
  | .getPathPieces => count = 0
  | .getPathPiece index => count ≤ index

theorem sizeAsInt_le (n : Nat) : sizeAsInt n ≤ n := by
  unfold sizeAsInt
  split
  · omega
  · omega

theorem sizeAsInt_of_small {n : Nat} (small : n < 2147483648) : sizeAsInt n = n := by
  unfold sizeAsInt
  split
  · omega
  · omega

namespace PathCache

def answer (pieces : List Str) : PathRead → PathAnswer
  | .getPathPieces => .pieces pieces
  | .getPathPiece index =>
    if sizeAsInt pieces.length > index then pieceAt pieces index else .piece []

theorem read_eq (s : PathCache) (r : PathRead) :
    s.read r = (s.ensurePathPiecesCached, answer s.ensurePathPiecesCached.pathPiecesCached r) := by
  cases r with
  | getPathPieces => rfl
  | getPathPiece index =>
    simp only [read, getPathPiece, answer]
    split
    · rfl
    · rfl

theorem ensure_ensure (s : PathCache) :
    s.ensurePathPiecesCached.ensurePathPiecesCached = s.ensurePathPiecesCached := by
  cases built : s.pathPiecesCacheBuilt with
  | true => simp [ensurePathPiecesCached, built]
  | false => simp [ensurePathPiecesCached, built]

theorem path_ensure (s : PathCache) : s.ensurePathPiecesCached.path = s.path := by
  unfold ensurePathPiecesCached
  split
  · rfl
  · rfl

theorem within_reads (s : PathCache) (reads : List PathRead) :
    Run.Within step Follows s (reads.map .read) ↔
      ∀ r ∈ reads, answer s.ensurePathPiecesCached.pathPiecesCached r = wanted s.path r := by
  induction reads generalizing s with
  | nil => simp [Run.Within]
  | cons r reads ih =>
    simp only [List.map_cons, Run.Within, step, Follows, read_eq, ih, ensure_ensure, path_ensure,
      List.forall_mem_cons]

theorem foldl_reads (s : PathCache) {reads : List PathRead} (some_ : reads ≠ []) :
    (reads.map .read).foldl step s = s.ensurePathPiecesCached := by
  induction reads generalizing s with
  | nil => exact absurd rfl some_
  | cons r reads ih =>
    simp only [List.map_cons, List.foldl_cons, step, read_eq]
    cases reads with
    | nil => rfl
    | cons next reads => rw [ih _ (List.cons_ne_nil next reads), ensure_ensure]

variable {index : Int}

theorem pieceAt_of_lt {pieces : List Str} (low : 0 ≤ index) (high : index < pieces.length) :
    pieceAt pieces index = .piece ((pieces[index.toNat]?).getD []) := by
  have inside : index.toNat < pieces.length := by omega
  rw [pieceAt, if_neg (by omega), List.getElem?_eq_getElem inside]
  rfl

theorem pieceAt_of_neg {pieces : List Str} (negative : index < 0) :
    pieceAt pieces index = .outOfRange := if_pos negative

theorem piece_ne_nil {path : Str} (low : 0 ≤ index) (high : index < (tokenizeUrl path).length) :
    ((tokenizeUrl path)[index.toNat]?).getD [] ≠ [] := by
  have inside : index.toNat < (tokenizeUrl path).length := by omega
  rw [List.getElem?_eq_getElem inside, Option.getD_some]
  have listed := List.getElem_mem inside
  have kept := List.mem_filter.mp (show _ ∈ (Fields.fields '/' path).filter (· ≠ []) from listed)
  simpa using kept.2

theorem empty_piece_iff {path : Str} (low : 0 ≤ index) :
    PathAnswer.piece [] = .piece (((tokenizeUrl path)[index.toNat]?).getD []) ↔
      (tokenizeUrl path).length ≤ index := by
  by_cases high : index < (tokenizeUrl path).length
  · have nonempty := piece_ne_nil low high
    constructor
    · intro same
      exact absurd (PathAnswer.piece.inj same).symm nonempty
    · omega
  · rw [List.getElem?_eq_none (by omega)]
    simp only [Option.getD_none, true_iff]
    omega

theorem answer_fresh_iff (path : Str) (r : PathRead) :
    answer (tokenizeUrl path) r = wanted path r ↔ r.Bounded (tokenizeUrl path).length := by
  cases r with
  | getPathPieces => simp [answer, wanted, PathRead.Bounded]
  | getPathPiece index =>
    simp only [answer, wanted, PathRead.Bounded]
    have least := sizeAsInt_le (tokenizeUrl path).length
    by_cases negative : index < 0
    · rw [if_pos negative]
      split
      · rw [pieceAt_of_neg negative]
        simp only [reduceCtorEq, false_iff]
        omega
      · simp only [true_iff]
        omega
    · rw [if_neg negative]
      split
      · rw [pieceAt_of_lt (by omega) (by omega)]
        simp only [true_iff]
        omega
      · rw [empty_piece_iff (by omega)]
        omega

theorem answer_empty_iff (path : Str) (r : PathRead) :
    answer [] r = wanted path r ↔ r.Beyond (tokenizeUrl path).length := by
  cases r with
  | getPathPieces =>
    simp only [answer, wanted, PathRead.Beyond, PathAnswer.pieces.injEq, List.length_eq_zero_iff]
    exact eq_comm
  | getPathPiece index =>
    simp only [answer, wanted, PathRead.Beyond, List.length_nil, sizeAsInt_of_small (by decide : 0 < 2147483648)]
    by_cases negative : index < 0
    · rw [if_pos (by omega), pieceAt_of_neg negative, if_pos negative]
      simp only [reduceCtorEq, false_iff]
      omega
    · rw [if_neg negative, if_neg (by omega)]
      exact empty_piece_iff (by omega)

/-- Path pieces follow the path over the life of a request exactly when no read
    comes before the path is set and every index is in bounds, or when the reads
    behind an early one ask for nothing that the path has. -/
theorem path_pieces_follow_iff (path : Str) (early later : List PathRead) :
    Run.Within step Follows {} (life path early later) ↔
      (∀ r ∈ early, r.Bounded 0) ∧
        ((early = [] ∧ ∀ r ∈ later, r.Bounded (tokenizeUrl path).length) ∨
          (early ≠ [] ∧ ∀ r ∈ later, r.Beyond (tokenizeUrl path).length)) := by
  have first : (∀ r ∈ early, answer (tokenizeUrl []) r = wanted [] r) ↔ ∀ r ∈ early, r.Bounded 0 :=
    forall₂_congr fun r _ => answer_fresh_iff [] r
  rw [life, Run.within_append, within_reads, Run.Within]
  simp only [Follows, true_and, within_reads]
  refine and_congr first ?_
  by_cases none_ : early = []
  · subst none_
    simp only [List.map_nil, List.foldl_nil, ne_eq, not_true_eq_false, true_and, false_and, or_false]
    exact forall₂_congr fun r _ => answer_fresh_iff path r
  · rw [foldl_reads {} none_]
    simp only [none_, ne_eq, not_false_eq_true, true_and, false_and, false_or]
    exact forall₂_congr fun r _ => answer_empty_iff path r

/-- A `request_received` hook that asks for the pieces hides those of `/a` from
    the handler, and the index -1 reads outside of the vector. -/
theorem early_read_freezes_pieces :
    ¬ Run.Within step Follows {} (life "/a".toList [.getPathPieces] [.getPathPieces]) ∧
      ((life "/a".toList [.getPathPieces] []).foldl step {}).path = "/a".toList ∧
      (((life "/a".toList [.getPathPieces] []).foldl step {}).getPathPieces).2 = .pieces [] ∧
      (((life "/a".toList [] []).foldl step {}).getPathPiece (-1)).2 = .outOfRange := by
  refine ⟨fun follows => ?_, by decide, by decide, by decide⟩
  have answered : PathAnswer.pieces [] = .pieces ["a".toList] := follows.2.2.1
  cases answered

end PathCache

section
variable (env : Env) (w : WireRequest)

theorem path_receive :
    Spec (fun s => s = {}) (receive env w) (fun _ s => s.conn.requestPath = some [])
      fun _ s => s.conn.requestPath = some [] := by
  have path_of_awaiting (c d : Conn) (same : c.awaiting = d.awaiting) :
      c.requestPath = d.requestPath := congrArg Prod.fst same
  refine spec_receiveChunks env w (fun _ s => s.conn.requestPath = some []) ?_ ?_ ?_ ?_
  · intro seen s path
    cases present : s.conn.request with
    | none => simp [Conn.requestPath, present] at path
    | some req => rfl
  · refine spec_bind (M := fun _ s => s.conn.requestPath = some []) (spec_modify fun s _ => rfl)
      fun _ => ?_
    exact ((calm_firstCallAwaiting env w).weaken path_of_awaiting).view_spec _
  · intro seen chunk sized
    exact spec_pre (((calm_receiveChunk env chunk).weaken path_of_awaiting).view_spec _)
      fun _ start => start.1
  · intro seen chunk s path _
    exact path

theorem path_serve :
    Spec (fun s => s = {}) (serve env w)
      (fun _ s => s.conn.requestPath = some (w.dispatched env.config))
      fun _ s => s.conn.requestPath = some (w.dispatched env.config) := by
  have last : Spec (fun s => True ∧ s.conn.ReadyFor (w.dispatched env.config))
      (finalizeAnswer env w) (fun _ s => s.conn.requestPath = some (w.dispatched env.config))
      fun _ s => s.conn.requestPath = some (w.dispatched env.config) :=
    spec_pre (spec_of_steps ((emits_finalizeAnswer env w).weaken requestPath_of_identity)
      fun s t path step => step.2.trans path) fun s ready => ready.2.1
  refine spec_pre (spec_serve env w (I := fun _ => True) (fun _ _ _ _ => trivial) last) ?_
  rintro _ rfl
  exact ⟨trivial, rfl⟩

theorem life_paths (early later : List PathRead) :
    (after (receive env w) {}).conn.requestPath =
        some ((early.map .read).foldl PathCache.step {}).path ∧
      (after (serve env w) {}).conn.requestPath =
        some ((PathCache.life (w.dispatched env.config) early later).foldl PathCache.step {}).path := by
  have reads (s : PathCache) (reads : List PathRead) :
      ((reads.map .read).foldl PathCache.step s).path = s.path := by
    cases reads with
    | nil => rfl
    | cons r reads => rw [PathCache.foldl_reads s (List.cons_ne_nil r reads), PathCache.path_ensure]
  constructor
  · rw [reads]
    exact spec_after (path_receive env w) rfl
  · rw [PathCache.life, List.foldl_append, List.foldl_cons, reads]
    exact spec_after (path_serve env w) rfl

end
end HttpServer
