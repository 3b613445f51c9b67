import Mathlib.Data.List.Destutter
import HttpServer.Text

/-!
The slash and dot normalisers a request URL runs through: `standardize_url`,
`normalize_path` and `canonicalize_lookup_path`. `CanonicalPath` is what they
are for, an absolute path as its list of proper segments. The single-pass
buffer of `normalize_path` is shown to render such a path, and the three
normalisers to leave a rendered path alone.
-/
namespace HttpServer
open Fields

/-- `standardize_url`: `std::unique` keeps the first slash of every run, then
    one trailing slash is removed unless it is the whole path. -/
def standardizeUrl (url : Str) : Str :=
  if url = [] then url
  else
    let result := url.destutter fun a b => ¬(a = b ∧ a = '/')
    if result.length > 1 ∧ result.getLast? = some '/' then result.dropLast else result

/-- One turn of the `normalize_path` loop on the output buffer and the stack of
    segment marks. -/
def normalizeStep (st : Str × List Nat) (seg : Str) : Str × List Nat :=
  if seg = [] ∨ seg = ['.'] then st
  else if seg = ['.', '.'] then
    match st.2 with
    | [] => st
    | mark :: marks => (st.1.take mark, marks)
  else
    (st.1 ++ (if st.1.length > 1 then ['/'] else []) ++ seg, st.1.length :: st.2)

def skipLeadingSlash : Str → Str
  | '/' :: rest => rest
  | path => path

def normalizePath (path : Str) : Str :=
  ((fields '/' (skipLeadingSlash path)).foldl normalizeStep (['/'], [])).1

def canonicalizeLookupPath (path : Str) : Str :=
  if path = [] then ['/']
  else
    let hasLeadingSlash := path.head? = some '/'
    let hasTrailingSlash := path.length > 1 ∧ path.getLast? = some '/'
    if hasLeadingSlash ∧ ¬hasTrailingSlash then path
    else
      (if hasLeadingSlash then [] else ['/']) ++
        (if hasTrailingSlash then path.dropLast else path)

/-- The path `answer_to_connection` stores as `standardized_url`. -/
def dispatchPath (unescaper : Option (Str → Str)) (url : Str) : Str :=
  normalizePath (standardizeUrl (baseUnescaper url unescaper))

def requestUrl (path : Str) : Str := if path.head? = some '/' then path else '/' :: path

/-- A segment that names something: not empty, not a dot segment. -/
def ProperSegment (seg : Str) : Prop :=
  seg ≠ [] ∧ seg ≠ ['.'] ∧ seg ≠ ['.', '.'] ∧ '/' ∉ seg

instance decidableProperSegment (seg : Str) : Decidable (ProperSegment seg) :=
  inferInstanceAs (Decidable (_ ∧ _ ∧ _ ∧ _))

structure CanonicalPath where
  segments : List Str
  proper : ∀ seg ∈ segments, ProperSegment seg

def CanonicalPath.text (c : CanonicalPath) : Str := '/' :: ['/'].intercalate c.segments

/-- Dot segments resolved on a stack of segments, the last segment on top. -/
def resolveStep (stack : List Str) (seg : Str) : List Str :=
  if seg = [] ∨ seg = ['.'] then stack
  else if seg = ['.', '.'] then stack.tail
  else seg :: stack

def buffer : List Str → Str
  | [] => ['/']
  | seg :: below => buffer below ++ (if (buffer below).length > 1 then ['/'] else []) ++ seg

def marks : List Str → List Nat
  | [] => []
  | _ :: below => (buffer below).length :: marks below

theorem normalizeStep_buffer (stack : List Str) (seg : Str) :
    normalizeStep (buffer stack, marks stack) seg =
      (buffer (resolveStep stack seg), marks (resolveStep stack seg)) := by
  unfold normalizeStep resolveStep
  split
  · rfl
  · split
    · cases stack with
      | nil => rfl
      | cons top below => simp [buffer, marks, List.append_assoc]
    · rfl

theorem normalize_loop_buffer (segs stack : List Str) :
    segs.foldl normalizeStep (buffer stack, marks stack) =
      (buffer (segs.foldl resolveStep stack), marks (segs.foldl resolveStep stack)) := by
  induction segs generalizing stack with
  | nil => rfl
  | cons seg segs ih => rw [List.foldl_cons, List.foldl_cons, normalizeStep_buffer, ih]

variable {stack segs : List Str}

theorem resolveStep_proper {seg : Str} (below : ∀ s ∈ stack, ProperSegment s) (clean : '/' ∉ seg) :
    ∀ s ∈ resolveStep stack seg, ProperSegment s := by
  unfold resolveStep
  split
  · exact below
  · split
    · exact fun s member => below s (List.mem_of_mem_tail member)
    · rename_i plain parent
      intro s member
      rcases List.mem_cons.mp member with rfl | older
      · exact ⟨fun h => plain (.inl h), fun h => plain (.inr h), parent, clean⟩
      · exact below s older

theorem resolve_proper (below : ∀ s ∈ stack, ProperSegment s) (clean : ∀ s ∈ segs, '/' ∉ s) :
    ∀ s ∈ segs.foldl resolveStep stack, ProperSegment s := by
  induction segs generalizing stack with
  | nil => exact below
  | cons seg segs ih =>
    exact ih (resolveStep_proper below (clean seg (by simp))) fun s h => clean s (by simp [h])

theorem resolve_keeps_proper (stack : List Str) (proper : ∀ s ∈ segs, ProperSegment s) :
    segs.foldl resolveStep stack = segs.reverse ++ stack := by
  induction segs generalizing stack with
  | nil => rfl
  | cons seg segs ih =>
    obtain ⟨full, dot, dots, -⟩ := proper seg (by simp)
    have pushed : resolveStep stack seg = seg :: stack := by simp [resolveStep, full, dot, dots]
    rw [List.foldl_cons, pushed, ih (seg :: stack) fun s h => proper s (by simp [h])]
    simp

theorem buffer_positive (stack : List Str) : 0 < (buffer stack).length := by
  induction stack with
  | nil => simp [buffer]
  | cons seg below ih =>
    simp only [buffer, List.length_append]
    omega

theorem buffer_longer {seg : Str} (below : List Str) (full : seg ≠ []) :
    (buffer (seg :: below)).length > 1 := by
  have first := buffer_positive below
  have more := List.length_pos_iff.mpr full
  simp only [buffer, List.length_append]
  omega

theorem buffer_eq_text (proper : ∀ s ∈ stack, ProperSegment s) :
    buffer stack = '/' :: ['/'].intercalate stack.reverse := by
  induction stack with
  | nil => rfl
  | cons seg below ih =>
    have inner := ih fun s h => proper s (by simp [h])
    cases below with
    | nil => simp [buffer]
    | cons top rest =>
      have long : (buffer (top :: rest)).length > 1 :=
        buffer_longer rest (proper top (by simp)).1
      rw [buffer, if_pos long, inner, List.reverse_cons (a := seg),
        intercalate_append _ (by simp) (by simp)]
      simp

def CanonicalPath.ofSegments (segs : List Str) (clean : ∀ s ∈ segs, '/' ∉ s) : CanonicalPath where
  segments := (segs.foldl resolveStep []).reverse
  proper := fun s member => resolve_proper (by simp) clean s (List.mem_reverse.mp member)

def resolvePath (path : Str) : CanonicalPath :=
  CanonicalPath.ofSegments (fields '/' (skipLeadingSlash path)) (sep_not_mem_fields _ _)

theorem normalizePath_eq_text (path : Str) : normalizePath path = (resolvePath path).text := by
  have loop := normalize_loop_buffer (fields '/' (skipLeadingSlash path)) []
  have rendered := buffer_eq_text (resolve_proper (List.forall_mem_nil ProperSegment)
    (sep_not_mem_fields '/' (skipLeadingSlash path)))
  unfold normalizePath
  rw [show ((['/'], []) : Str × List Nat) = (buffer [], marks []) from rfl, loop]
  exact rendered

theorem mem_standardizeUrl {url : Str} {x : Char} (member : x ∈ standardizeUrl url) : x ∈ url := by
  unfold standardizeUrl at member
  split at member
  · exact member
  · have kept := (List.destutter_sublist (fun a b => ¬(a = b ∧ a = '/')) url).subset
    dsimp only at member
    split at member
    · exact kept ((List.dropLast_sublist _).subset member)
    · exact kept member

theorem mem_resolve {s : Str} (member : s ∈ segs.foldl resolveStep stack) :
    s ∈ stack ∨ s ∈ segs := by
  induction segs generalizing stack with
  | nil => exact Or.inl member
  | cons seg segs ih =>
    rcases ih member with top | later
    · unfold resolveStep at top
      split at top
      · exact Or.inl top
      · split at top
        · exact Or.inl (List.mem_of_mem_tail top)
        · rcases List.mem_cons.mp top with rfl | older
          · exact Or.inr List.mem_cons_self
          · exact Or.inl older
    · exact Or.inr (List.mem_cons_of_mem seg later)

theorem mem_normalizePath {path : Str} {x : Char} (member : x ∈ normalizePath path) :
    x = '/' ∨ x ∈ path := by
  rw [normalizePath_eq_text, CanonicalPath.text] at member
  rcases List.mem_cons.mp member with rfl | body
  · exact Or.inl rfl
  · rcases mem_intercalate body with slash | ⟨seg, listed, inside⟩
    · exact Or.inl (List.mem_singleton.mp slash)
    · have field : seg ∈ fields '/' (skipLeadingSlash path) := by
        rcases mem_resolve (List.mem_reverse.mp listed) with none | found
        · simp at none
        · exact found
      have rest := mem_of_mem_fields field inside
      unfold skipLeadingSlash at rest
      split at rest
      · exact Or.inr (List.mem_cons_of_mem _ rest)
      · exact Or.inr rest

namespace CanonicalPath
variable (c : CanonicalPath)

theorem fields_body : fields '/' (['/'].intercalate c.segments) = c.segments :=
  fields_intercalate '/' c.segments (fun s h => (c.proper s h).2.2.2) (fun s h => (c.proper s h).1)

theorem text_eq_lead (below : c.segments ≠ []) : c.text = lead '/' c.segments :=
  cons_intercalate_eq_lead '/' c.segments below

@[simp] theorem tokenizeUrl_text : tokenizeUrl c.text = c.segments := by
  simp only [tokenizeUrl, stringSplit, if_true, text, fields_sep_cons, fields_body]
  rw [List.filter_cons_of_neg (by simp), List.filter_eq_self]
  intro s member
  simpa using (c.proper s member).1

@[simp] theorem normalizePath_text : normalizePath c.text = c.text := by
  rw [normalizePath_eq_text]
  have same : (resolvePath c.text).segments = c.segments := by
    simp only [resolvePath, ofSegments, text, skipLeadingSlash, fields_body,
      resolve_keeps_proper [] c.proper, List.append_nil, List.reverse_reverse]
  rw [text, same, text]

theorem isChain_of_clean {seg : Str} (clean : '/' ∉ seg) :
    seg.IsChain fun a b => ¬(a = b ∧ a = '/') := by
  refine (List.pairwise_of_forall_mem_list ?_).isChain
  rintro a member b - ⟨-, rfl⟩
  exact clean member

theorem body_shape {segs : List Str} (proper : ∀ s ∈ segs, ProperSegment s) :
    (['/'].intercalate segs).IsChain (fun a b => ¬(a = b ∧ a = '/')) ∧
      '/' ∉ (['/'].intercalate segs).head? ∧ '/' ∉ (['/'].intercalate segs).getLast? := by
  induction segs with
  | nil => simp
  | cons seg segs ih =>
    obtain ⟨full, -, -, clean⟩ := proper seg (by simp)
    have ends : '/' ∉ seg.head? ∧ '/' ∉ seg.getLast? :=
      ⟨fun h => clean (List.mem_of_mem_head? h), fun h => clean (List.mem_of_mem_getLast? h)⟩
    cases segs with
    | nil =>
      rw [List.intercalate_singleton]
      exact ⟨isChain_of_clean clean, ends⟩
    | cons next segs =>
      obtain ⟨chain, first, last⟩ := ih fun s h => proper s (by simp [h])
      have rest : ['/'].intercalate (next :: segs) ≠ [] := by
        intro empty
        have none := fields_body ⟨next :: segs, fun s h => proper s (by simp [h])⟩
        simp [empty] at none
      rw [List.intercalate_cons_cons]
      refine ⟨?_, ?_, ?_⟩
      · rw [List.append_assoc, List.isChain_append, List.singleton_append, List.isChain_cons]
        refine ⟨isChain_of_clean clean, ⟨?_, chain⟩, ?_⟩
        · rintro c head ⟨rfl, -⟩
          exact first head
        · rintro a tail b - ⟨-, rfl⟩
          exact ends.2 tail
      · rw [List.append_assoc, List.head?_append_of_ne_nil _ full]
        exact ends.1
      · rw [List.getLast?_append_of_ne_nil _ rest]
        exact last

theorem text_isChain : c.text.IsChain fun a b => ¬(a = b ∧ a = '/') := by
  obtain ⟨chain, first, -⟩ := body_shape c.proper
  rw [text, List.isChain_cons]
  refine ⟨?_, chain⟩
  rintro b head ⟨rfl, -⟩
  exact first head

theorem text_no_trailing_slash : ¬(c.text.length > 1 ∧ c.text.getLast? = some '/') := by
  obtain ⟨-, -, last⟩ := body_shape c.proper
  rintro ⟨long, trailing⟩
  have rest : ['/'].intercalate c.segments ≠ [] := by
    intro empty
    simp [text, empty] at long
  rw [text, List.getLast?_cons_of_ne_nil rest] at trailing
  exact last trailing

@[simp] theorem standardizeUrl_text : standardizeUrl c.text = c.text := by
  unfold standardizeUrl
  rw [if_neg (by simp [text]), List.destutter_of_isChain _ _ c.text_isChain]
  exact if_neg c.text_no_trailing_slash

@[simp] theorem standardizeUrl_text_slash : standardizeUrl (c.text ++ ['/']) = c.text := by
  by_cases root : c.segments = []
  · simp [text, root, standardizeUrl, List.destutter, List.destutter']
  · have body : ['/'].intercalate c.segments ≠ [] := by
      intro empty
      exact root (by simpa [empty] using c.fields_body.symm)
    have chain : (c.text ++ ['/']).IsChain fun a b => ¬(a = b ∧ a = '/') := by
      obtain ⟨-, -, last⟩ := body_shape c.proper
      rw [List.isChain_append]
      refine ⟨c.text_isChain, by simp, ?_⟩
      rintro a trailing b - ⟨-, rfl⟩
      rw [text, List.getLast?_cons_of_ne_nil body] at trailing
      exact last trailing
    unfold standardizeUrl
    rw [if_neg (by simp), List.destutter_of_isChain _ _ chain]
    dsimp only
    rw [if_pos ⟨by simp [text], by simp⟩]
    simp

@[simp] theorem canonicalizeLookupPath_text : canonicalizeLookupPath c.text = c.text := by
  unfold canonicalizeLookupPath
  rw [if_neg (by simp [text])]
  exact if_pos ⟨by simp [text], c.text_no_trailing_slash⟩

end CanonicalPath
end HttpServer
