import HttpServer.Lib.QuotedText
import HttpServer.ResponseBuilding

/-!
The realm of a challenge. `http_response::unauthorized` escapes backslashes and
quotes, and skips the loop when there are none; either way a client that reads
the quoted string has the realm.
-/
namespace HttpServer
open QuotedText

def realmSpecial (c : Char) : Bool := c = '\\' || c = '"'

theorem escapedRealm_eq (realm : Str) :
    HttpResponse.escapedRealm realm = escapeWhere '\\' realmSpecial realm := by
  induction realm with
  | nil => rfl
  | cons c rest ih =>
    rw [HttpResponse.escapedRealm, escapeWhere, ih]
    by_cases backslash : c = '\\'
    · simp [realmSpecial, backslash]
    · by_cases quote : c = '"'
      · simp [realmSpecial, quote]
      · simp [realmSpecial, backslash, quote]

/-- The fast path leaves out a loop that would have changed nothing. -/
theorem challengeText_eq (scheme realm : Str) :
    HttpResponse.challengeText scheme realm =
      scheme ++ " realm=".toList ++ '"' :: (escapeWhere '\\' realmSpecial realm ++ ['"']) := by
  have written : (if realm.any fun c => c = '\\' || c = '"' then HttpResponse.escapedRealm realm
      else realm) = escapeWhere '\\' realmSpecial realm := by
    split
    · exact escapedRealm_eq realm
    · rename_i plain
      refine (escapeWhere_of_plain '\\' fun c listed => ?_).symm
      have none := List.any_eq_false.mp (Bool.eq_false_iff.mpr plain) c listed
      exact Bool.eq_false_iff.mpr none
  rw [HttpResponse.challengeText, written]
  simp

theorem cleanText_append {s t : Str} (first : CleanText s) (second : CleanText t) :
    CleanText (s ++ t) := List.forall_mem_append.mpr ⟨first, second⟩

theorem cleanText_challengeText {scheme realm : Str} (schemeClean : CleanText scheme)
    (realmClean : CleanText realm) : CleanText (HttpResponse.challengeText scheme realm) := by
  have fixed : CleanText " realm=".toList := cleanText_of_all rfl
  have quote : CleanText ['"'] := cleanText_of_all rfl
  have escaped : CleanText (escapeWhere '\\' realmSpecial realm) := by
    intro c listed
    rcases mem_escapeWhere '\\' listed with rfl | own
    · decide
    · exact realmClean c own
  rw [challengeText_eq]
  exact cleanText_append (cleanText_append schemeClean fixed)
    (cleanText_append quote (cleanText_append escaped quote))

theorem withHeader_of_clean {r : HttpResponse} {key value : Str} (name : CleanText key)
    (text : CleanText value) :
    r.withHeader key value =
      .ok { r with headers := HeaderMap.insertOrAssign key value r.headers } := by
  rw [HttpResponse.withHeader, validateHttpField, (cleanText_iff key).mp name,
    (cleanText_iff value).mp text]
  rfl

/-- A client reads back the realm it was challenged with, and nothing behind it;
    a scheme or realm that could not be sent is refused. -/
theorem challenge_realm_reads_back (scheme realm responseBody : Str) :
    (CleanText scheme ∧ CleanText realm ∧
        ∃ r quoted, HttpResponse.unauthorized scheme realm responseBody = .ok r ∧
          r.headers = [("WWW-Authenticate".toList, scheme ++ " realm=".toList ++ quoted)] ∧
          readQuoted '"' '\\' quoted = some (realm, [])) ∨
      (¬(CleanText scheme ∧ CleanText realm) ∧
        ∃ what, HttpResponse.unauthorized scheme realm responseBody =
          .error (.invalidArgument what)) := by
  unfold HttpResponse.unauthorized
  split
  · rename_i bad
    refine Or.inr ⟨fun clean => ?_, _, rfl⟩
    exact Bool.false_ne_true (((cleanText_iff scheme).mp clean.1).symm.trans bad)
  · rename_i schemeGood
    have schemeClean : CleanText scheme := (cleanText_iff scheme).mpr (by simpa using schemeGood)
    split
    · rename_i bad
      refine Or.inr ⟨fun clean => ?_, _, rfl⟩
      exact Bool.false_ne_true (((cleanText_iff realm).mp clean.2).symm.trans bad)
    · rename_i realmGood
      have realmClean : CleanText realm := (cleanText_iff realm).mpr (by simpa using realmGood)
      have accepted := @withHeader_of_clean { statusCode := 401 } "WWW-Authenticate".toList _
        (cleanText_of_all rfl) (cleanText_challengeText schemeClean realmClean)
      rw [accepted]
      have readBack : readQuoted '"' '\\' ('"' :: (escapeWhere '\\' realmSpecial realm ++ ['"'])) =
          some (realm, []) := readQuoted_escapeWhere (by decide) rfl rfl realm []
      refine Or.inl ⟨schemeClean, realmClean, _, _, rfl, ?_, readBack⟩
      rw [← challengeText_eq]
      rfl

example : (HttpResponse.unauthorized "Basic".toList "a \"b\\c\"".toList []).toOption.map (·.headers) =
    some [("WWW-Authenticate".toList, "Basic realm=\"a \\\"b\\\\c\\\"\"".toList)] := by
  decide

end HttpServer
