import Mathlib.Data.List.DropRight
import Mathlib.Data.List.Forall2
import HttpServer.CookieRendering

/-!
Request cookie headers read back. The parser trims a token, cuts it at the first
`=` and takes one pair of quotes off the value, so a value loses the blanks at
its end and then its quotes, and nothing else.
-/
namespace HttpServer
namespace Cookie
open Fields

def wirePair (pair : Str × Str) : Str := pair.1 ++ '=' :: pair.2

def wireHeader (pairs : List (Str × Str)) : Str := [';', ' '].intercalate (pairs.map wirePair)

def Settable (pair : Str × Str) : Prop :=
  pair.1 ≠ [] ∧ (({} : Cookie).withName pair.1).isOk = true ∧
    (({} : Cookie).withValue pair.2).isOk = true

instance decidableSettable (pair : Str × Str) : Decidable (Settable pair) :=
  inferInstanceAs (Decidable (_ ∧ _ ∧ _))

/-- `w` is `v` without one pair of quotes around it, if there is one. -/
def Unquoted (v w : Str) : Prop :=
  '"' :: (w ++ ['"']) = v ∨ w = v ∧ ∀ inner, '"' :: (inner ++ ['"']) ≠ v

variable {pair : Str × Str}

theorem Settable.name_valid (settable : Settable pair) : pair.1.any isInvalidNameByte = false := by
  have accepted := settable.2.1
  rw [← Bool.not_eq_true]
  intro bad
  rw [withName, validateName, if_pos bad] at accepted
  cases accepted

theorem Settable.value_plain (settable : Settable pair) : Plain pair.2 := by
  have accepted := settable.2.2
  apply plain_of_any
  rw [← Bool.not_eq_true]
  intro bad
  rw [withValue, validateValue, if_pos bad] at accepted
  cases accepted

theorem Settable.plain (settable : Settable pair) : Plain (wirePair pair) := by
  have equals : Plain ['='] := plain_of_any rfl
  rw [wirePair, ← List.singleton_append, plain_append_iff, plain_append_iff]
  exact ⟨plain_name settable.name_valid, equals, settable.value_plain⟩

def withoutQuotes (value : Str) : Str :=
  if 2 ≤ value.length ∧ value.head? = some '"' ∧ value.getLast? = some '"' then
    (value.drop 1).dropLast
  else value

theorem withoutQuotes_quoted (inner : Str) : withoutQuotes ('"' :: (inner ++ ['"'])) = inner := by
  have ends : ('"' :: (inner ++ ['"'])).getLast? = some '"' :=
    List.getLast?_concat (l := '"' :: inner)
  have long : 2 ≤ ('"' :: (inner ++ ['"'])).length := by
    rw [List.length_cons, List.length_append, List.length_singleton]
    omega
  rw [withoutQuotes, if_pos ⟨long, rfl, ends⟩]
  simp

theorem unquoted_withoutQuotes (value : Str) : Unquoted value (withoutQuotes value) := by
  by_cases quoted : ∃ inner, '"' :: (inner ++ ['"']) = value
  · obtain ⟨inner, rfl⟩ := quoted
    rw [withoutQuotes_quoted]
    exact Or.inl rfl
  · have bare : withoutQuotes value = value := by
      rw [withoutQuotes, if_neg]
      rintro ⟨long, first, last⟩
      obtain ⟨front, rfl⟩ := List.getLast?_eq_some_iff.mp last
      cases front with
      | nil => simp at long
      | cons c inner =>
        cases first
        exact quoted ⟨inner, rfl⟩
    exact Or.inr ⟨bare, fun inner same => quoted ⟨inner, same⟩⟩

theorem not_blank_of_valid {ch : Char} (valid : (!isInvalidNameByte ch) = true) :
    isBlank ch = false := by
  rw [← Bool.not_eq_true]
  intro blank
  have among : ch = ' ' ∨ ch = '\t' := by simpa [isBlank] using blank
  rcases among with rfl | rfl <;> exact absurd valid (by decide)

theorem rdropWhile_append_cons {α : Type} {p : α → Bool} (front back : List α) {x : α}
    (stop : p x = false) :
    (front ++ x :: back).rdropWhile p = front ++ x :: back.rdropWhile p := by
  induction back using List.reverseRecOn with
  | nil =>
    rw [List.rdropWhile_nil, List.rdropWhile_concat_neg p front x (by simp [stop])]
  | append_singleton back y ih =>
    by_cases drops : p y = true
    · rw [List.rdropWhile_concat_pos p back y drops, ← ih, ← List.cons_append,
        ← List.append_assoc, List.rdropWhile_concat_pos p _ y drops]
    · rw [List.rdropWhile_concat_neg p back y drops, ← List.cons_append,
        ← List.append_assoc, List.rdropWhile_concat_neg p _ y drops]

theorem trimWs_eq (s : Str) : trimWs s = (s.dropWhile isBlank).rdropWhile isBlank := rfl

theorem trimWs_name {name : Str} (valid : name.any isInvalidNameByte = false) :
    trimWs name = name := by
  have blanks : ∀ ch ∈ name, isBlank ch = false :=
    fun ch member => not_blank_of_valid (name_byte_valid valid ch member)
  rw [trimWs_eq, List.dropWhile_eq_self_iff.mpr, List.rdropWhile_eq_self_iff.mpr]
  · intro nonempty
    simp [blanks _ (List.getLast_mem nonempty)]
  · intro nonempty
    simp [blanks _ (List.getElem_mem nonempty)]

theorem trimWs_token (settable : Settable pair) (blanks : Str)
    (blank : ∀ ch ∈ blanks, isBlank ch = true) :
    trimWs (blanks ++ wirePair pair) = wirePair (pair.1, pair.2.rdropWhile isBlank) := by
  obtain ⟨first, rest, name⟩ := List.exists_cons_of_ne_nil settable.1
  have starts : isBlank first = false := by
    apply not_blank_of_valid
    exact name_byte_valid settable.name_valid first (by simp [name])
  rw [trimWs_eq, List.dropWhile_append_of_pos blank, wirePair, name, List.cons_append,
    List.dropWhile_cons_of_neg (by simp [starts]), ← List.cons_append, ← name]
  exact rdropWhile_append_cons pair.1 pair.2 rfl

theorem parseCookieToken_token (settable : Settable pair) (blanks : Str)
    (blank : ∀ ch ∈ blanks, isBlank ch = true) :
    parseCookieToken (blanks ++ wirePair pair) =
      some (pair.1, withoutQuotes (pair.2.rdropWhile isBlank)) := by
  have before : ∀ ch ∈ pair.1, decide (ch ≠ '=') = true := by
    intro ch member
    simpa using fun same : ch = '=' => equals_not_mem_name settable.name_valid (same ▸ member)
  have name : (wirePair (pair.1, pair.2.rdropWhile isBlank)).takeWhile (· ≠ '=') = pair.1 := by
    rw [wirePair, List.takeWhile_append_of_pos before]
    simp
  have value : ((wirePair (pair.1, pair.2.rdropWhile isBlank)).dropWhile (· ≠ '=')).drop 1 =
      pair.2.rdropWhile isBlank := by
    rw [wirePair, List.dropWhile_append_of_pos before]
    simp
  have cut : '=' ∈ wirePair (pair.1, pair.2.rdropWhile isBlank) := by simp [wirePair]
  unfold parseCookieToken
  dsimp only
  rw [trimWs_token settable blanks blank, if_pos cut, name, value, trimWs_name settable.name_valid,
    if_neg settable.1]
  rfl

theorem parseCookieHeader_wireHeader (pairs : List (Str × Str))
    (settable : ∀ pair ∈ pairs, Settable pair) :
    parseCookieHeader (wireHeader pairs) = pairs.map fun pair =>
      { name := pair.1, value := withoutQuotes (pair.2.rdropWhile isBlank) } := by
  cases pairs with
  | nil => rfl
  | cons pair rest =>
    obtain ⟨first, others⟩ := List.forall_mem_cons.mp settable
    have clean : ∀ token ∈ wirePair pair :: (rest.map wirePair).map (' ' :: ·), ';' ∉ token := by
      rw [List.forall_mem_cons, List.map_map, List.forall_mem_map]
      refine ⟨((plain_iff _).mp first.plain).2, fun other listed => ?_⟩
      simpa using ((plain_iff _).mp (others other listed).plain).2
    have head : parseCookieToken (wirePair pair) =
        some (pair.1, withoutQuotes (pair.2.rdropWhile isBlank)) :=
      parseCookieToken_token first [] (by simp)
    have tail : (rest.map wirePair).filterMap (parseCookieToken ∘ (' ' :: ·)) =
        rest.map fun other => (other.1, withoutQuotes (other.2.rdropWhile isBlank)) := by
      rw [List.filterMap_map, ← List.filterMap_eq_map]
      apply List.filterMap_congr
      intro other listed
      exact parseCookieToken_token (others other listed) [' '] (by simp [isBlank])
    rw [wireHeader, List.map_cons, intercalate_pair, parseCookieHeader,
      List.splitOn_intercalate ';' clean (List.cons_ne_nil _ _), List.filterMap_cons_some head,
      List.filterMap_map, tail, List.map_cons, List.map_map, List.map_cons]
    rfl

/-- The parser gives the pairs back, in order and none besides. -/
theorem cookie_header_reads_back (pairs : List (Str × Str))
    (settable : ∀ pair ∈ pairs, Settable pair) :
    List.Forall₂ (fun pair c => c.name = pair.1 ∧ Unquoted (pair.2.rdropWhile isBlank) c.value)
      pairs (parseCookieHeader (wireHeader pairs)) := by
  rw [parseCookieHeader_wireHeader pairs settable, List.forall₂_map_right_iff, List.forall₂_same]
  intro pair _
  exact ⟨rfl, unquoted_withoutQuotes _⟩

def awkwardPairs : List (Str × Str) :=
  [("a".toList, "\"x\" \t".toList), ("b".toList, " 1=2".toList)]

theorem awkward_pairs_read_back :
    wireHeader awkwardPairs = "a=\"x\" \t; b= 1=2".toList ∧
      List.Forall₂ (fun pair c => c.name = pair.1 ∧ Unquoted (pair.2.rdropWhile isBlank) c.value)
        awkwardPairs (parseCookieHeader (wireHeader awkwardPairs)) :=
  ⟨rfl, cookie_header_reads_back awkwardPairs (by decide)⟩

end Cookie
end HttpServer
