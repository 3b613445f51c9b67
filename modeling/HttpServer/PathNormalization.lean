import HttpServer.UrlPath

/-!
`normalize_path` by positions: the source reads its input through a start
offset and keeps, instead of segments, the lengths its output had before each of
them. The loop renders the stack of segments left after resolving the dot
segments of the path.
-/
namespace HttpServer
open Fields

/-- `std::string_view::find` from a position, `none` for `npos`. -/
def findFrom (s : Str) (c : Char) (pos : Nat) : Option Nat :=
  ((s.drop pos).idxOf? c).map (pos + ·)

structure NormalizeState where
  out : Str
  segMarks : List Nat
  start : Nat
  deriving DecidableEq, Repr

def normalizeTurn (path : Str) (st : NormalizeState) : NormalizeState :=
  let end_ := (findFrom path '/' st.start).getD path.length
  let seg := (path.drop st.start).take (end_ - st.start)
  let st := { st with start := end_ + 1 }
  if seg = [] ∨ seg = ['.'] then st
  else if seg = ['.', '.'] then
    match st.segMarks with
    | [] => st
    | mark :: marks => { st with out := resize st.out mark, segMarks := marks }
  else
    { st with
      segMarks := st.out.length :: st.segMarks
      out := st.out ++ (if st.out.length > 1 then ['/'] else []) ++ seg }

def normalizeLoop (path : Str) : Nat → NormalizeState → NormalizeState
  | 0, st => st
  | rounds + 1, st =>
    if st.start < path.length then normalizeLoop path rounds (normalizeTurn path st) else st

/-- `normalize_path`. Every turn moves the start, so the path bounds the turns. -/
def normalizePathByOffsets (path : Str) : Str :=
  (normalizeLoop path path.length
    ⟨['/'], [], if path.head? = some '/' then 1 else 0⟩).out

theorem segment_eq_popField {path : Str} {start : Nat} (inside : start < path.length) :
    let end_ := (findFrom path '/' start).getD path.length
    ((path.drop start).take (end_ - start), path.drop (end_ + 1)) =
      popField '/' (path.drop start) := by
  intro end_
  have length : (path.drop start).length = path.length - start := List.length_drop
  have position : end_ = start + ((path.drop start).idxOf? '/').getD (path.drop start).length := by
    dsimp only [end_, findFrom]
    cases (path.drop start).idxOf? '/' with
    | none =>
      rw [Option.map_none, Option.getD_none, Option.getD_none, length]
      omega
    | some i => rfl
  rw [popField_eq_idxOf, List.drop_drop, position, Nat.add_sub_cancel_left, Nat.add_assoc]

theorem normalizeTurn_buffer {path : Str} {start : Nat} (inside : start < path.length)
    (stack : List Str) :
    ∃ next, start < next ∧ path.drop next = (popField '/' (path.drop start)).2 ∧
      normalizeTurn path ⟨buffer stack, marks stack, start⟩ =
        ⟨buffer (resolveStep stack (popField '/' (path.drop start)).1),
          marks (resolveStep stack (popField '/' (path.drop start)).1), next⟩ := by
  have popped := segment_eq_popField inside
  refine ⟨(findFrom path '/' start).getD path.length + 1, ?_, (Prod.ext_iff.mp popped).2, ?_⟩
  · rw [findFrom]
    cases (path.drop start).idxOf? '/' with
    | none =>
      rw [Option.map_none, Option.getD_none]
      omega
    | some i =>
      rw [Option.map_some, Option.getD_some]
      omega
  · rw [normalizeTurn, ← popped]
    dsimp only
    unfold resolveStep
    split
    · rfl
    · split
      · cases stack with
        | nil => rfl
        | cons top below =>
          -- the mark on top is the length the buffer had without the segment
          have room : (buffer below).length ≤ (buffer (top :: below)).length := by
            simp only [buffer, List.length_append]
            omega
          dsimp only [marks, List.tail]
          rw [resize_shorter room, buffer, List.append_assoc, List.take_left]
      · rfl

theorem normalizeLoop_buffer {path : Str} (rounds : Nat) {start : Nat} (stack : List Str)
    (enough : path.length ≤ start + rounds) :
    (normalizeLoop path rounds ⟨buffer stack, marks stack, start⟩).out =
      buffer ((fields '/' (path.drop start)).foldl resolveStep stack) := by
  induction rounds generalizing start stack with
  | zero =>
    rw [List.drop_of_length_le (by omega)]
    rfl
  | succ rounds ih =>
    rw [normalizeLoop]
    by_cases inside : start < path.length
    · obtain ⟨next, later, rest, turn⟩ := normalizeTurn_buffer inside stack
      have more : path.drop start ≠ [] := by
        intro empty
        have gone := List.drop_eq_nil_iff.mp empty
        omega
      rw [if_pos inside, turn, ih _ (by omega), rest, fields_eq_pop '/' _ more, List.foldl_cons]
    · rw [if_neg inside, List.drop_of_length_le (by omega)]
      rfl

theorem normalizePathByOffsets_eq (path : Str) :
    normalizePathByOffsets path = normalizePath path := by
  have fieldwise := normalize_loop_buffer (fields '/' (skipLeadingSlash path)) []
  have skipped : path.drop (if path.head? = some '/' then 1 else 0) = skipLeadingSlash path := by
    cases path with
    | nil => rfl
    | cons c rest =>
      by_cases slash : c = '/'
      · subst slash
        rfl
      · rw [skipLeadingSlash]
        · simp [slash]
        · intro tail same
          exact slash (List.cons.inj same).1
  have looped := @normalizeLoop_buffer path path.length (if path.head? = some '/' then 1 else 0) []
    (Nat.le_add_left path.length _)
  rw [skipped] at looped
  exact looped.trans (congrArg Prod.fst fieldwise).symm

/-- Empty segments leave the stack alone, so it does not matter whether the ones
    at the ends are counted. -/
theorem resolve_splitOn (path : Str) :
    (path.splitOn '/').foldl resolveStep [] =
      (fields '/' (skipLeadingSlash path)).foldl resolveStep [] := by
  have all : (path.splitOn '/').foldl resolveStep [] = (fields '/' path).foldl resolveStep [] := by
    rw [splitOn_eq_fields]
    split
    · rw [List.foldl_concat]
      rfl
    · rfl
  rw [all, skipLeadingSlash.eq_def]
  split
  · rw [fields_sep_cons, List.foldl_cons]
    rfl
  · rfl

/-- `normalize_path` is a slash and the joined stack that the segments leave. -/
theorem normalize_path_resolves (path : Str) :
    normalizePathByOffsets path =
      '/' :: ['/'].intercalate ((path.splitOn '/').foldl resolveStep []).reverse := by
  rw [normalizePathByOffsets_eq, normalizePath_eq_text, resolve_splitOn]
  rfl

end HttpServer
