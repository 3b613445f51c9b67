import Mathlib.Data.List.Basic

/-!
Quoted texts. A text stands between two quotes; an escape character makes the
next character part of the text, so a writer that escapes both special
characters is undone by the reader, which stops at the closing quote.
-/
namespace QuotedText
variable {α : Type}

section
variable (escape : α)

def escapeWhere (special : α → Bool) : List α → List α
  | [] => []
  | c :: rest =>
    if special c then escape :: c :: escapeWhere special rest else c :: escapeWhere special rest

variable {special : α → Bool} {text : List α}

theorem escapeWhere_of_plain (plain : ∀ c ∈ text, special c = false) :
    escapeWhere escape special text = text := by
  induction text with
  | nil => rfl
  | cons c rest ih =>
    have first := plain c List.mem_cons_self
    rw [escapeWhere, if_neg (by simp [first]), ih fun d listed => plain d (.tail c listed)]

theorem mem_escapeWhere {c : α} (listed : c ∈ escapeWhere escape special text) :
    c = escape ∨ c ∈ text := by
  induction text with
  | nil => exact Or.inr listed
  | cons d rest ih =>
    have later (inside : c ∈ escapeWhere escape special rest) : c = escape ∨ c ∈ d :: rest :=
      (ih inside).imp_right (.tail d)
    rw [escapeWhere] at listed
    split at listed
    · rcases List.mem_cons.mp listed with added | listed
      · exact Or.inl added
      · rcases List.mem_cons.mp listed with own | inside
        · exact Or.inr (own ▸ List.mem_cons_self)
        · exact later inside
    · rcases List.mem_cons.mp listed with own | inside
      · exact Or.inr (own ▸ List.mem_cons_self)
      · exact later inside

end

variable [DecidableEq α]

section
variable (quote escape : α)

def readBody : List α → Option (List α × List α)
  | [] => none
  | [c] => if c = quote then some ([], []) else none
  | c :: d :: rest =>
    if c = quote then some ([], d :: rest)
    else if c = escape then (readBody rest).map fun read => (d :: read.1, read.2)
    else (readBody (d :: rest)).map fun read => (c :: read.1, read.2)

def readQuoted : List α → Option (List α × List α)
  | [] => none
  | c :: rest => if c = quote then readBody quote escape rest else none

end

variable {quote escape : α}

theorem readBody_quote (rest : List α) :
    readBody quote escape (quote :: rest) = some ([], rest) := by
  cases rest with
  | nil => simp [readBody]
  | cons d rest => simp [readBody]

theorem readBody_other {c : α} (notQuote : c ≠ quote) (notEscape : c ≠ escape) {rest : List α}
    (more : rest ≠ []) :
    readBody quote escape (c :: rest) =
      (readBody quote escape rest).map fun read => (c :: read.1, read.2) := by
  obtain ⟨d, rest, rfl⟩ := List.exists_cons_of_ne_nil more
  rw [readBody, if_neg notQuote, if_neg notEscape]

variable {special : α → Bool}

theorem readBody_escapeWhere (distinct : quote ≠ escape) (quoteSpecial : special quote = true)
    (escapeSpecial : special escape = true) (text after : List α) :
    readBody quote escape (escapeWhere escape special text ++ quote :: after) =
      some (text, after) := by
  induction text with
  | nil => exact readBody_quote after
  | cons c rest ih =>
    rw [escapeWhere]
    split
    · rw [List.cons_append, List.cons_append, readBody, if_neg distinct.symm, if_pos rfl,
        ih]
      rfl
    · rename_i ordinary
      have notQuote : c ≠ quote := by
        rintro rfl
        exact ordinary quoteSpecial
      have notEscape : c ≠ escape := by
        rintro rfl
        exact ordinary escapeSpecial
      have more : escapeWhere escape special rest ++ quote :: after ≠ [] := by simp
      rw [List.cons_append, readBody_other notQuote notEscape more, ih]
      rfl

theorem readQuoted_escapeWhere (distinct : quote ≠ escape) (quoteSpecial : special quote = true)
    (escapeSpecial : special escape = true) (text after : List α) :
    readQuoted quote escape (quote :: (escapeWhere escape special text ++ quote :: after)) =
      some (text, after) := by
  rw [readQuoted, if_pos rfl]
  exact readBody_escapeWhere distinct quoteSpecial escapeSpecial text after

end QuotedText
