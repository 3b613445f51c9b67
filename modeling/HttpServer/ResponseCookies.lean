import HttpServer.ResponseBuilding

/-!
The cookies of a response as its getters see them. The authoritative list keeps
what both overloads of `with_cookie` put there: one appends, the other
overwrites the first cookie of the name. The map behind `get_cookie` is rebuilt
from that list, so of several cookies of one name it shows the last.
-/
namespace HttpServer

/-- A response with the deprecated map of its cookies. -/
structure MirroredResponse where
  response : HttpResponse := {}
  cookies : HeaderMap := []
  cookiesMirrorValid : Bool := false

def headerMapFindView (m : HeaderMap) (key : Str) : Str :=
  match m.find? fun kv => !headerComparator kv.1 key && !headerComparator key kv.1 with
  | some kv => kv.2
  | none => []

def mirrorOf (cookies : List Cookie) : HeaderMap :=
  cookies.foldl (fun m c => HeaderMap.insertOrAssign c.name c.value m) []

namespace MirroredResponse

def ensureCookieMirror (s : MirroredResponse) : MirroredResponse :=
  if s.cookiesMirrorValid then s
  else { s with cookies := mirrorOf s.response.structuredCookies, cookiesMirrorValid := true }

def getCookie (s : MirroredResponse) (key : Str) : Str × MirroredResponse :=
  let s := s.ensureCookieMirror
  (headerMapFindView s.cookies key, s)

def withCookiePair (s : MirroredResponse) (key value : Str) : Except Exc MirroredResponse := do
  let r ← s.response.withCookiePair key value
  pure { s with response := r, cookiesMirrorValid := false }

def withCookie (s : MirroredResponse) (c : Cookie) : MirroredResponse :=
  { s with response := s.response.withCookie c, cookiesMirrorValid := false }

end MirroredResponse

theorem headerMapFindView_eq (m : HeaderMap) (key : Str) :
    headerMapFindView m key = (m.valueOf key).getD [] := by
  have same : (fun kv : Str × Str => !headerComparator kv.1 key && !headerComparator key kv.1) =
      fun kv => iequalAscii kv.1 key := by
    funext kv
    rw [Bool.eq_iff_iff, ← unordered_iff]
    simp
  unfold headerMapFindView HeaderMap.valueOf
  rw [same]
  cases m.find? fun kv => iequalAscii kv.1 key with
  | some kv => rfl
  | none => rfl

def named (key : Str) (c : Cookie) : Bool := iequalAscii c.name key

theorem valueOf_mirrorOf (cookies : List Cookie) (key : Str) :
    (mirrorOf cookies).valueOf key = (cookies.filter (named key)).getLast?.map (·.value) :=
  HeaderMap.valueOf_assigned Cookie.name Cookie.value cookies key

def ahead (key : Str) (cookies : List Cookie) : List Cookie :=
  cookies.takeWhile fun c => !named key c

def behind (key : Str) (cookies : List Cookie) : List Cookie :=
  (cookies.dropWhile fun c => !named key c).tail

variable {key value : Str} {front later : List Cookie}

theorem sameCookieName_eq (existing new : Cookie) :
    HttpResponse.sameCookieName existing new = named new.name existing := by
  rw [Bool.eq_iff_iff, named, ← unordered_iff]
  simp [HttpResponse.sameCookieName]

theorem replaceOrAppend_eq (new : Cookie) (cookies : List Cookie) :
    HttpResponse.replaceOrAppend new cookies =
      ahead new.name cookies ++ new :: behind new.name cookies := by
  induction cookies with
  | nil => rfl
  | cons existing rest ih =>
    rw [HttpResponse.replaceOrAppend, sameCookieName_eq]
    cases same : named new.name existing with
    | true => simp [ahead, behind, same]
    | false =>
      rw [if_neg Bool.false_ne_true, ih]
      simp [ahead, behind, same]

theorem withCookiePair_ok {r next : HttpResponse} (ok : r.withCookiePair key value = .ok next) :
    key.any isInvalidNameByte = false ∧ value.any isInvalidValueByte = false ∧
      next.structuredCookies =
        ahead key r.structuredCookies ++
          { name := key, value := value } :: behind key r.structuredCookies := by
  unfold HttpResponse.withCookiePair at ok
  split at ok
  · cases ok
  · rename_i new built
    cases ok
    obtain ⟨half, named, valued⟩ : ∃ half, ({} : Cookie).withName key = .ok half ∧
        half.withValue value = .ok new := by
      cases named : ({} : Cookie).withName key with
      | error e =>
        rw [named] at built
        cases built
      | ok half =>
        rw [named] at built
        exact ⟨half, rfl, built⟩
    obtain ⟨name, rfl⟩ := checked_ok named
    obtain ⟨text, rfl⟩ := checked_ok valued
    refine ⟨?_, ?_, replaceOrAppend_eq _ _⟩
    · unfold validateName at name
      split at name
      · cases name
      · rename_i clean
        simpa using clean
    · unfold validateValue at text
      split at text
      · cases text
      · rename_i clean
        simpa using clean

theorem renderedCookies_fst (left : TmLeft) (cookies : List Cookie) :
    (renderedCookies left cookies).map Prod.fst = cookies.takeWhile fun c => decide c.Renderable := by
  induction cookies with
  | nil => rfl
  | cons c rest ih =>
    rcases c.toSetCookieHeader_cases left with ⟨renderable, line, ok⟩ | ⟨unrenderable, e, failed⟩
    · rw [renderedCookies, ok, List.takeWhile_cons_of_pos (by simpa using renderable), ← ih]
      rfl
    · rw [renderedCookies, failed, List.takeWhile_cons_of_neg (by simpa using unrenderable)]
      rfl

def wireCount (left : TmLeft) (key : Str) (cookies : List Cookie) : Nat :=
  ((renderedCookies left cookies).map Prod.fst).countP (named key)

theorem wireCount_eq_one_iff {left : TmLeft} {new : Cookie} (own : named key new = true)
    (others : ∀ c ∈ front, named key c = false) :
    wireCount left key (front ++ new :: later) = 1 ↔
      new.Renderable ∧ (∀ c ∈ front, c.Renderable) ∧
        ∀ c ∈ later.takeWhile fun c => decide c.Renderable, named key c = false := by
  have none_in {cookies : List Cookie} (all : ∀ c ∈ cookies, named key c = false) :
      cookies.countP (named key) = 0 := by
    rw [List.countP_eq_zero]
    intro c listed
    simpa using all c listed
  rw [wireCount, renderedCookies_fst]
  by_cases clear : ∀ c ∈ front, c.Renderable
  · rw [List.takeWhile_append_of_pos (by simpa using clear), List.countP_append, none_in others,
      Nat.zero_add]
    by_cases renderable : new.Renderable
    · rw [List.takeWhile_cons_of_pos (by simpa using renderable), List.countP_cons_of_pos own]
      simpa [renderable] using fun _ => clear
    · rw [List.takeWhile_cons_of_neg (by simpa using renderable)]
      simp [renderable]
  · -- the loop ends in front of the new cookie
    have cut : (front ++ new :: later).takeWhile (fun c => decide c.Renderable) =
        front.takeWhile fun c => decide c.Renderable := by
      rw [List.takeWhile_append, if_neg]
      intro whole
      apply clear
      have same := (List.takeWhile_sublist fun c : Cookie => decide c.Renderable).eq_of_length whole
      intro c listed
      rw [← same] at listed
      simpa using List.mem_takeWhile_imp listed
    rw [cut, none_in fun c listed => others c ((List.takeWhile_subset _) listed)]
    simp [clear]

def MirroredResponse.Shows (s : MirroredResponse) (left : TmLeft) (key value : Str) : Prop :=
  (s.getCookie key).1 = value ∧ wireCount left key s.response.structuredCookies = 1

theorem named_self (c : Cookie) : named c.name c = true := (iequalAscii_iff _ _).mpr rfl

theorem getCookie_eq_iff {s : MirroredResponse} (stale : s.cookiesMirrorValid = false)
    (stored : s.response.structuredCookies = front ++ { name := key, value := value } :: later)
    (others : ∀ c ∈ front, named key c = false) :
    (s.getCookie key).1 = value ↔ ∀ c ∈ (later.filter (named key)).getLast?, c.value = value := by
  have front_none : front.filter (named key) = [] := by
    rw [List.filter_eq_nil_iff]
    intro c listed
    simpa using others c listed
  have shown : (s.getCookie key).1 = (((later.filter (named key)).getLast?.getD
      { name := key, value := value }).value) := by
    rw [MirroredResponse.getCookie, MirroredResponse.ensureCookieMirror, stale,
      if_neg Bool.false_ne_true]
    rw [headerMapFindView_eq, valueOf_mirrorOf, stored, List.filter_append, front_none,
      List.nil_append, List.filter_cons_of_pos (named_self { name := key, value := value }),
      List.getLast?_cons]
    cases (later.filter (named key)).getLast? with
    | none => rfl
    | some c => rfl
  rw [shown]
  cases (later.filter (named key)).getLast? with
  | none => simp
  | some c => simp

/-- A cookie that `with_cookie(cookie)` appended behind another of its name is
    left alone: it is rendered as well, and the map shows its value. -/
theorem with_cookie_overwrites_iff {s next : MirroredResponse} {key value : Str}
    (ok : s.withCookiePair key value = .ok next) (left : TmLeft) :
    next.Shows left key value ↔
      key ≠ [] ∧ (∀ c ∈ ahead key s.response.structuredCookies, c.Renderable) ∧
        (∀ c ∈ (behind key s.response.structuredCookies).takeWhile fun c => decide c.Renderable,
          named key c = false) ∧
        ∀ c ∈ ((behind key s.response.structuredCookies).filter (named key)).getLast?,
          c.value = value := by
  obtain ⟨r, set, rfl⟩ : ∃ r, s.response.withCookiePair key value = .ok r ∧
      next = { s with response := r, cookiesMirrorValid := false } := by
    unfold MirroredResponse.withCookiePair at ok
    cases set : s.response.withCookiePair key value with
    | error e =>
      rw [set] at ok
      cases ok
    | ok r =>
      rw [set] at ok
      cases ok
      exact ⟨r, rfl, rfl⟩
  obtain ⟨name, text, stored⟩ := withCookiePair_ok set
  have others : ∀ c ∈ ahead key s.response.structuredCookies, named key c = false :=
    fun _ listed => by simpa using List.mem_takeWhile_imp listed
  have renderable : ({ name := key, value := value } : Cookie).Renderable ↔ key ≠ [] :=
    ⟨fun renders => renders.1, fun nonempty => ⟨nonempty, name, text⟩⟩
  unfold MirroredResponse.Shows
  rw [getCookie_eq_iff rfl stored others]
  dsimp only
  rw [stored, wireCount_eq_one_iff (named_self { name := key, value := value }) others, renderable]
  constructor
  · rintro ⟨shown, nonempty, clear, single⟩
    exact ⟨nonempty, clear, single, shown⟩
  · rintro ⟨nonempty, clear, single, shown⟩
    exact ⟨shown, nonempty, clear, single⟩

theorem second_pair_overwrites :
    ∃ first next, ({} : MirroredResponse).withCookiePair "sid".toList "old".toList = .ok first ∧
      first.withCookiePair "SID".toList "new".toList = .ok next ∧
      next.Shows untouchedTm "SID".toList "new".toList := by
  refine ⟨_, _, rfl, rfl, ?_⟩
  exact (with_cookie_overwrites_iff (s := { response := {
    structuredCookies := [{ name := "sid".toList, value := "old".toList }] } }) rfl _).mpr (by decide)

def appendedTwice : MirroredResponse :=
  (({} : MirroredResponse).withCookie { name := "a".toList, value := "1".toList }).withCookie
    { name := "a".toList, value := "2".toList }

/-- Of two appended cookies the second survives; and a cookie without a name is
    accepted but never rendered. -/
theorem appended_cookie_is_not_overwritten :
    (∃ next, appendedTwice.withCookiePair "a".toList "3".toList = .ok next ∧
      (next.getCookie "a".toList).1 = "2".toList ∧
      (renderedCookies untouchedTm next.response.structuredCookies).map Prod.snd =
        ["a=3".toList, "a=2".toList] ∧
      ¬next.Shows untouchedTm "a".toList "3".toList) ∧
    ∃ next, ({} : MirroredResponse).withCookiePair [] "3".toList = .ok next ∧
      renderedCookies untouchedTm next.response.structuredCookies = [] ∧
      ¬next.Shows untouchedTm [] "3".toList := by
  refine ⟨⟨_, rfl, by decide, by decide, ?_⟩, ⟨_, rfl, by decide, ?_⟩⟩
  · intro shows
    exact absurd shows.1 (by decide)
  · intro shows
    exact absurd shows.2 (by decide)

end HttpServer
