import HttpServer.BodyStorage

/-!
File parts that are kept in memory. Every chunk is put behind what `get_arg`
answers for the field, and the first such read loads the query string. A query
argument with the name of the field therefore comes in front of the file.
-/
namespace HttpServer
open ComparatorSet OrderedMap

/-- A file part as the post processor delivers it, at least one chunk; hooks may
    read arguments between two chunks. -/
structure FilePart where
  first : Str
  later : List (List ArgRead × Str)

namespace FilePart

def content (p : FilePart) : Str := p.first ++ (p.later.map (·.2)).flatten

def laterEvents (key : Str) (later : List (List ArgRead × Str)) : List BodyEvent :=
  later.flatMap fun piece => piece.1.map .read ++ [.filePart key piece.2]

def events (key : Str) (p : FilePart) : List BodyEvent :=
  .filePart key p.first :: laterEvents key p.later

end FilePart

def BodyEvent.Names (key : Str) : BodyEvent → Prop
  | .read _ => False
  | .formArg name _ _ => name.map keyBytes = some (keyBytes key)
  | .filePart name _ => keyBytes name = keyBytes key

def Unused (key : Str) (events : List BodyEvent) : Prop := ∀ event ∈ events, ¬ event.Names key

section
variable (src : ArgSource) (target : FileUploadTarget) (limit : Nat)

/-- What `get_arg_flat` answers for the field of the part at the end of the body. -/
def uploadedArg (s : RequestArgs) (key : Str) (part : FilePart) (later : List BodyEvent) :
    Option Str :=
  (((part.events key ++ later).foldl (RequestArgs.receive src target limit) s).getArgFlat src key).2

end

namespace RequestArgs

theorem populateArgs_of_populated (src : ArgSource) {s : RequestArgs}
    (populated : s.argsPopulated = true) : s.populateArgs src = s := by
  rw [populateArgs, if_pos populated]

theorem populated_read (src : ArgSource) (s : RequestArgs) (r : ArgRead) :
    (s.read src r).argsPopulated = true := by
  have loaded := populateArgs_populated src s
  cases r with
  | getArg key => exact loaded
  | getArgFlat key => exact loaded
  | getArgs =>
    simp only [read, getArgs, ensureArgsViewCached]
    split
    · exact loaded
    · exact loaded
  | getArgsFlat =>
    simp only [read, getArgsFlat, ensureArgsFlatViewCached]
    split
    · exact loaded
    · exact loaded

structure Holds (key value : Str) (s : RequestArgs) : Prop where
  valid : s.unescapedArgs.Valid
  populated : s.argsPopulated = true
  stored : s.unescapedArgs.values key = [value]

section
variable {src : ArgSource} {target : FileUploadTarget} {limit : Nat} {s : RequestArgs}
  {key value : Str}

theorem Holds.read (holds : Holds key value s) (r : ArgRead) : Holds key value (s.read src r) := by
  have args : (s.read src r).unescapedArgs = s.unescapedArgs := by
    rw [unescapedArgs_read, populateArgs_of_populated src holds.populated]
  exact ⟨args ▸ holds.valid, populated_read src s r, args ▸ holds.stored⟩

theorem Holds.reads (holds : Holds key value s) (reads : List ArgRead) :
    Holds key value ((reads.map .read).foldl (receive src target limit) s) := by
  induction reads generalizing s with
  | nil => exact holds
  | cons r reads ih => exact ih (holds.read r)

theorem Holds.getArg (holds : Holds key value s) : (s.getArg src key).2 = [value] := by
  rw [RequestArgs.getArg, populateArgs_of_populated src holds.populated]
  exact holds.stored

theorem Holds.getArgFlat (holds : Holds key value s) : (s.getArgFlat src key).2 = some value := by
  have stored := holds.stored
  rw [RequestArgs.getArgFlat, populateArgs_of_populated src holds.populated]
  cases found : s.unescapedArgs.find key with
  | none => simp [ArgMap.values, found] at stored
  | some values => simp_all [ArgMap.values]

theorem receive_filePart (kept : target ≠ .diskOnly) (key data : Str) :
    s.receive src target limit (.filePart key data) = (s.populateArgs src).setArgFlat key
      ((s.getArg src key).2.headD [] ++ data) limit := by
  simp [receive, RequestArgs.iterateFile, kept, RequestArgs.getArg]

theorem holds_filePart (kept : target ≠ .diskOnly) (valid : s.unescapedArgs.Valid)
    (key data : Str) :
    Holds key (((s.getArg src key).2.headD [] ++ data).take limit)
      (s.receive src target limit (.filePart key data)) := by
  have loaded := valid_populateArgs src valid
  refine ⟨valid_receive src target limit valid _, ?_, ?_⟩
  · rw [receive_filePart kept]
    exact populateArgs_populated src s
  · rw [receive_filePart kept, setArgFlat, take_min_length, loaded.values_findOrInsertArg, if_pos rfl]

variable {content : Str} {event : BodyEvent} {events : List BodyEvent}

theorem Holds.filePart (kept : target ≠ .diskOnly) (holds : Holds key (content.take limit) s)
    (data : Str) :
    Holds key ((content ++ data).take limit) (s.receive src target limit (.filePart key data)) := by
  have first : (s.getArg src key).2.headD [] = content.take limit := by
    rw [holds.getArg, List.headD_cons]
  rw [← take_append_take, ← first]
  exact holds_filePart kept holds.valid key data

theorem Holds.laterEvents (kept : target ≠ .diskOnly) (holds : Holds key (content.take limit) s)
    (later : List (List ArgRead × Str)) :
    Holds key ((content ++ (later.map (·.2)).flatten).take limit)
      ((FilePart.laterEvents key later).foldl (receive src target limit) s) := by
  induction later generalizing s content with
  | nil => simpa [FilePart.laterEvents] using holds
  | cons piece later ih =>
    simp only [FilePart.laterEvents, List.flatMap_cons, List.foldl_append, List.map_cons,
      List.flatten_cons, ← List.append_assoc]
    exact ih ((holds.reads piece.1).filePart kept piece.2)

theorem values_receive (valid : s.unescapedArgs.Valid)
    (loaded : (s.populateArgs src).unescapedArgs.values key = s.unescapedArgs.values key)
    (other : ¬ event.Names key) :
    (s.receive src target limit event).unescapedArgs.values key = s.unescapedArgs.values key := by
  cases event with
  | read r => rw [receive, unescapedArgs_read, loaded]
  | formArg name data off =>
    cases name with
    | none => rfl
    | some name =>
      have apart : ¬ keyBytes name = keyBytes key := fun same => other (congrArg some same)
      simp only [receive, handlePostFormArg]
      split
      · rw [growLastArg, valid.values_findOrInsertArg, if_neg apart]
      · rw [setArg, valid.values_appendArg, if_neg apart, List.append_nil]
  | filePart name data =>
    by_cases kept : target ≠ .diskOnly
    · rw [receive_filePart kept, setArgFlat, (valid_populateArgs src valid).values_findOrInsertArg]
      exact (if_neg other).trans loaded
    · simp [receive, RequestArgs.iterateFile, kept]

theorem populated_receive (populated : s.argsPopulated = true) (event : BodyEvent) :
    (s.receive src target limit event).argsPopulated = true := by
  cases event with
  | read r => exact populated_read src s r
  | formArg name data off =>
    cases name with
    | none => exact populated
    | some name =>
      simp only [receive, handlePostFormArg]
      split
      · exact populated
      · exact populated
  | filePart name data =>
    by_cases kept : target ≠ .diskOnly
    · rw [receive_filePart kept]
      exact populateArgs_populated src s
    · simpa [receive, RequestArgs.iterateFile, kept] using populated

theorem Holds.receive (holds : Holds key value s) (other : ¬ event.Names key) :
    Holds key value (s.receive src target limit event) where
  valid := valid_receive src target limit holds.valid event
  populated := populated_receive holds.populated event
  stored := by
    rw [values_receive holds.valid _ other, holds.stored]
    rw [populateArgs_of_populated src holds.populated]

theorem Holds.received (holds : Holds key value s) (others : Unused key events) :
    Holds key value (events.foldl (RequestArgs.receive src target limit) s) := by
  induction events generalizing s with
  | nil => exact holds
  | cons event events ih =>
    obtain ⟨here, behind⟩ := List.forall_mem_cons.mp others
    exact ih (holds.receive here) behind

theorem uploadedArg_eq (kept : target ≠ .diskOnly) (valid : s.unescapedArgs.Valid) (key : Str)
    (part : FilePart) {later : List BodyEvent} (others : Unused key later) :
    uploadedArg src target limit s key part later =
      some (((s.getArg src key).2.headD [] ++ part.content).take limit) := by
  have whole : Holds key (((s.getArg src key).2.headD [] ++ part.content).take limit)
      ((part.events key ++ later).foldl (receive src target limit) s) := by
    rw [List.foldl_append, FilePart.content, ← List.append_assoc]
    refine Holds.received ?_ others
    exact (holds_filePart kept valid key part.first).laterEvents kept part.later
  exact whole.getArgFlat

theorem values_unqueried (valid : s.unescapedArgs.Valid)
    (unnamed : ∀ pair ∈ src.queryArgs, keyBytes pair.1 ≠ keyBytes key) :
    (s.populateArgs src).unescapedArgs.values key = s.unescapedArgs.values key := by
  have kept := @populateArgs_keeps
    (fun args => args.Valid ∧ args.values key = s.unescapedArgs.values key) src
    (fun args pair value listed holds => ⟨holds.1.appendArg pair.1 value, by
      rw [holds.1.values_appendArg, if_neg (unnamed pair listed), List.append_nil, holds.2]⟩)
    s ⟨valid, rfl⟩
  exact kept.2

theorem values_unused (valid : s.unescapedArgs.Valid)
    (unnamed : ∀ pair ∈ src.queryArgs, keyBytes pair.1 ≠ keyBytes key) (others : Unused key events) :
    (events.foldl (receive src target limit) s).unescapedArgs.values key =
      s.unescapedArgs.values key := by
  induction events generalizing s with
  | nil => rfl
  | cons event events ih =>
    obtain ⟨here, behind⟩ := List.forall_mem_cons.mp others
    rw [List.foldl_cons, ih (valid_receive src target limit valid event) behind]
    exact values_receive valid (values_unqueried valid unnamed) here

end

end RequestArgs

theorem exists_upload_behind {query : Str} (some_ : query ≠ []) {limit : Nat} (room : limit ≠ 0) :
    ∃ c, (query ++ [c]).take limit ≠ [c].take limit := by
  cases query with
  | nil => exact absurd rfl some_
  | cons first rest =>
    obtain ⟨limit, rfl⟩ := Nat.exists_eq_succ_of_ne_zero room
    rcases eq_or_ne first 'a' with rfl | other
    · exact ⟨'b', by simp⟩
    · exact ⟨'a', by simp [other]⟩

/-- A file part of a field that no query argument names is just the file. The
    first argument of that name, as `get_arg` would read it before the part, comes
    in front of it otherwise. -/
theorem in_memory_upload_iff (src : ArgSource) (target : FileUploadTarget) (limit : Nat)
    (kept : target ≠ .diskOnly) (key : Str) (earlier : List BodyEvent) (others : Unused key earlier) :
    let s := earlier.foldl (RequestArgs.receive src target limit) {}
    let query := (s.getArg src key).2.headD []
    (∀ part later, Unused key later →
      (uploadedArg src target limit s key part later = some (part.content.take limit) ↔
        (query ++ part.content).take limit = part.content.take limit)) ∧
    ((∀ part later, Unused key later →
      uploadedArg src target limit s key part later = some (part.content.take limit)) ↔
        query = [] ∨ limit = 0) ∧
    ((∀ pair ∈ src.queryArgs, keyBytes pair.1 ≠ keyBytes key) → query = []) := by
  intro s query
  have valid : s.unescapedArgs.Valid :=
    RequestArgs.valid_received src target limit earlier ArgMap.valid_nil
  have stored (part : FilePart) (later : List BodyEvent) (unused : Unused key later) :
      uploadedArg src target limit s key part later = some ((query ++ part.content).take limit) :=
    RequestArgs.uploadedArg_eq kept valid key part unused
  refine ⟨fun part later unused => ?_, ⟨fun alone => ?_, fun empty part later unused => ?_⟩,
    fun unnamed => ?_⟩
  · rw [stored part later unused, Option.some_inj]
  · by_contra shown
    obtain ⟨differs, some_⟩ := not_or.mp shown
    obtain ⟨c, visible⟩ := exists_upload_behind differs some_
    have unused : Unused key [] := by simp [Unused]
    have same := alone ⟨[c], []⟩ [] unused
    rw [stored _ _ unused, Option.some_inj] at same
    exact visible same
  · rw [stored part later unused]
    rcases empty with none_ | zero
    · rw [none_, List.nil_append]
    · rw [zero, List.take_zero, List.take_zero]
  · have unstored : s.unescapedArgs.values key = [] :=
      RequestArgs.values_unused ArgMap.valid_nil unnamed others
    change ((s.populateArgs src).unescapedArgs.values key).headD [] = []
    rw [RequestArgs.values_unqueried valid unnamed, unstored]
    rfl

theorem upload_next_to_query_argument :
    uploadedArg ⟨[(['q'], some ['Q'])], none, 0, 0⟩ .memoryOnly 100
      ([BodyEvent.formArg (some ['g']) ['1'] 0].foldl (RequestArgs.receive
        ⟨[(['q'], some ['Q'])], none, 0, 0⟩ .memoryOnly 100) {})
      ['f'] ⟨['a', 'b'], [([.getArgs], ['c'])]⟩ [] = some ['a', 'b', 'c'] :=
  ((in_memory_upload_iff ⟨[(['q'], some ['Q'])], none, 0, 0⟩ .memoryOnly 100 (by decide) ['f']
    [.formArg (some ['g']) ['1'] 0] (by simp [Unused, BodyEvent.Names, keyBytes, signedByte])).1
      ⟨['a', 'b'], [([.getArgs], ['c'])]⟩ [] (by simp [Unused])).mpr (by decide)

/-- The query string `f=Q` and a file `abc` in field `f`. -/
theorem query_argument_in_front_of_upload :
    uploadedArg ⟨[(['f'], some ['Q'])], none, 0, 0⟩ .memoryOnly 100 {} ['f']
      ⟨['a', 'b', 'c'], []⟩ [] = some ['Q', 'a', 'b', 'c'] := by
  decide

end HttpServer
