import HttpServer.Cookie

/-!
What a `Set-Cookie` line consists of. Names and values are checked when the
line is rendered, `Domain` and `Path` only when they are set, and the parser of
request headers sets neither. The dates and numbers are the library's own text.
-/
namespace HttpServer
open Fields

inductive CookieCall where
  | withName (v : Str)
  | withValue (v : Str)
  | withDomain (v : Str)
  | withPath (v : Str)
  | withExpires (epochSeconds : Int)
  | withMaxAge (seconds : Int)
  | withSecure (v : Bool)
  | withHttpOnly (v : Bool)
  | withSameSite (v : SameSiteMode)
  deriving DecidableEq, Repr

def CookieCall.run (c : Cookie) : CookieCall → Except CookieError Cookie
  | .withName v => c.withName v
  | .withValue v => c.withValue v
  | .withDomain v => c.withDomain v
  | .withPath v => c.withPath v
  | .withExpires epochSeconds => .ok (c.withExpires epochSeconds)
  | .withMaxAge seconds => .ok (c.withMaxAge seconds)
  | .withSecure v => .ok (c.withSecure v)
  | .withHttpOnly v => .ok (c.withHttpOnly v)
  | .withSameSite v => .ok (c.withSameSite v)

theorem checks_first {ε α : Type} {check : Except ε Unit} {rest : Except ε α} {a : α}
    (ok : (do check; rest) = Except.ok a) : check = .ok () ∧ rest = .ok a := by
  cases check with
  | error e => cases ok
  | ok done => exact ⟨rfl, ok⟩

theorem checked_ok {ε α : Type} {check : Except ε Unit} {written next : α}
    (ok : (do check; pure written) = Except.ok next) : check = .ok () ∧ next = written := by
  obtain ⟨passed, wrote⟩ := checks_first ok
  cases wrote
  exact ⟨passed, rfl⟩

namespace Cookie

def after (c : Cookie) (call : CookieCall) : Cookie :=
  match call.run c with
  | .ok next => next
  | .error _ => c

/-- The cookies a program can have: constructed or parsed, and then set. -/
inductive Obtained : Cookie → Prop where
  | constructed : Obtained {}
  | parsed {headerValue : Str} {c : Cookie} (listed : c ∈ parseCookieHeader headerValue) :
      Obtained c
  | set {c : Cookie} (obtained : Obtained c) (call : CookieCall) : Obtained (c.after call)

variable {c : Cookie} {s : Str}

theorem Obtained.of_ok {next : Cookie} (obtained : c.Obtained) (call : CookieCall)
    (ok : call.run c = .ok next) : next.Obtained := by
  have set := obtained.set call
  rw [after, ok] at set
  exact set

def attributes (c : Cookie) (left : TmLeft) : List (Option Str) :=
  [c.expires.map fun epochSeconds => "Expires=".toList ++ formatImfFixdate left epochSeconds,
    c.maxAge.map fun seconds => "Max-Age=".toList ++ padded 0 seconds,
    if c.domain = [] then .none else some ("Domain=".toList ++ c.domain),
    if c.path = [] then .none else some ("Path=".toList ++ c.path),
    if c.secure || c.sameSite = .none then some "Secure".toList else .none,
    if c.httpOnly then some "HttpOnly".toList else .none,
    match c.sameSite with
    | .strict => some "SameSite=Strict".toList
    | .lax => some "SameSite=Lax".toList
    | .none => some "SameSite=None".toList
    | .unset => .none]

def pieces (c : Cookie) (left : TmLeft) : List Str :=
  (c.name ++ '=' :: c.value) :: ((c.attributes left).filterMap id).map (' ' :: ·)

def attributeText (as : List (Option Str)) : Str := lead ';' ((as.filterMap id).map (' ' :: ·))

theorem attributeText_append (as bs : List (Option Str)) :
    attributeText (as ++ bs) = attributeText as ++ attributeText bs := by
  simp [attributeText, lead_append]

theorem attributeText_pair (a b : Option Str) :
    attributeText [a, b] = attributeText [a] ++ attributeText [b] :=
  attributeText_append [a] [b]

theorem attributeText_some (text : Str) : attributeText [some text] = ';' :: ' ' :: text := by
  simp [attributeText, lead]

theorem timeAttributes_eq (c : Cookie) (left : TmLeft) :
    c.timeAttributes left = attributeText [c.expires.map fun epochSeconds =>
        "Expires=".toList ++ formatImfFixdate left epochSeconds,
      c.maxAge.map fun seconds => "Max-Age=".toList ++ padded 0 seconds] := by
  rw [attributeText_pair, timeAttributes]
  congr 1
  · cases c.expires with
    | none => rfl
    | some epochSeconds => exact (attributeText_some _).symm
  · cases c.maxAge with
    | none => rfl
    | some seconds => exact (attributeText_some _).symm

theorem targetAttributes_eq (c : Cookie) :
    c.targetAttributes =
      attributeText [if c.domain = [] then .none else some ("Domain=".toList ++ c.domain),
        if c.path = [] then .none else some ("Path=".toList ++ c.path)] := by
  rw [attributeText_pair, targetAttributes]
  congr 1
  · by_cases unset : c.domain = []
    · rw [if_pos unset, if_pos unset]
      rfl
    · rw [if_neg unset, if_neg unset]
      exact (attributeText_some _).symm
  · by_cases unset : c.path = []
    · rw [if_pos unset, if_pos unset]
      rfl
    · rw [if_neg unset, if_neg unset]
      exact (attributeText_some _).symm

theorem flagAttributes_eq (c : Cookie) :
    c.flagAttributes =
      attributeText [if c.secure || c.sameSite = .none then some "Secure".toList else .none,
        if c.httpOnly then some "HttpOnly".toList else .none] := by
  rw [attributeText_pair, flagAttributes]
  congr 1
  · split
    · exact (attributeText_some _).symm
    · rfl
  · split
    · exact (attributeText_some _).symm
    · rfl

theorem sameSiteAttributeText_eq (mode : SameSiteMode) :
    sameSiteAttributeText mode = attributeText [match mode with
      | .strict => some "SameSite=Strict".toList
      | .lax => some "SameSite=Lax".toList
      | .none => some "SameSite=None".toList
      | .unset => .none] := by
  cases mode with
  | unset => rfl
  | strict => exact (attributeText_some _).symm
  | lax => exact (attributeText_some _).symm
  | none => exact (attributeText_some _).symm

theorem toSetCookieHeader_eq_pieces (renderable : c.Renderable) (left : TmLeft) :
    c.toSetCookieHeader left = .ok ([';'].intercalate (c.pieces left)) := by
  obtain ⟨named, name, value⟩ := renderable
  have joined : ';' :: [';'].intercalate (c.pieces left) = ';' :: ((c.name ++ '=' :: c.value) ++
      attributeText (c.attributes left)) := by
    rw [cons_intercalate_eq_lead ';' (c.pieces left) (List.cons_ne_nil _ _), pieces, lead_cons]
    rfl
  have line : attributeText (c.attributes left) = c.timeAttributes left ++ (c.targetAttributes ++
      (c.flagAttributes ++ sameSiteAttributeText c.sameSite)) := by
    rw [timeAttributes_eq, targetAttributes_eq, flagAttributes_eq, sameSiteAttributeText_eq,
      ← attributeText_append, ← attributeText_append, ← attributeText_append]
    rfl
  rw [List.tail_eq_of_cons_eq joined, line]
  simp [toSetCookieHeader, validateName, validateValue, named, name, value, bind, Except.bind,
    pure, Except.pure]

def Plain (s : Str) : Prop := ∀ ch ∈ s, isInvalidValueByte ch = false

theorem plain_append_iff (s t : Str) : Plain (s ++ t) ↔ Plain s ∧ Plain t := List.forall_mem_append

theorem Plain.take (plain : Plain s) (n : Nat) : Plain (s.take n) :=
  fun ch member => plain ch (List.mem_of_mem_take member)

theorem plain_of_any (accepted : s.any isInvalidValueByte = false) : Plain s := by
  intro ch member
  exact Bool.not_eq_true _ ▸ List.any_eq_false.mp accepted ch member

theorem plain_iff (s : Str) :
    Plain s ↔ (∀ ch ∈ s, ch ∉ forbiddenCtrlChars) ∧ ';' ∉ s := by
  simp only [Plain, isInvalidValueByte, Bool.or_eq_false_iff, decide_eq_false_iff_not,
    List.contains_eq_mem]
  constructor
  · intro plain
    exact ⟨fun ch member => (plain ch member).1, fun member => (plain _ member).2 rfl⟩
  · rintro ⟨line, piece⟩ ch member
    exact ⟨line ch member, fun same => piece (same ▸ member)⟩

theorem isInvalidValueByte_cases {ch : Char} (bad : isInvalidValueByte ch = true) :
    ch = '\r' ∨ ch = '\n' ∨ ch = '\x00' ∨ ch = ';' := by
  simpa [isInvalidValueByte, forbiddenCtrlChars, or_assoc] using bad

theorem plain_of_test {test : Char → Bool} (passes : ∀ ch ∈ s, test ch = true)
    (rejects : ['\r', '\n', '\x00', ';'].all (fun ch => !test ch) = true) : Plain s := by
  intro ch member
  rw [← Bool.not_eq_true]
  intro bad
  have listed : ch ∈ ['\r', '\n', '\x00', ';'] := by
    simpa using isInvalidValueByte_cases bad
  have rejected := List.all_eq_true.mp rejects ch listed
  rw [passes ch member] at rejected
  cases rejected

theorem name_byte_valid (accepted : s.any isInvalidNameByte = false) :
    ∀ ch ∈ s, (!isInvalidNameByte ch) = true := by
  intro ch member
  simpa using List.any_eq_false.mp accepted ch member

theorem plain_name (accepted : s.any isInvalidNameByte = false) : Plain s :=
  plain_of_test (name_byte_valid accepted) rfl

theorem equals_not_mem_name (accepted : s.any isInvalidNameByte = false) : '=' ∉ s := by
  intro member
  exact absurd (name_byte_valid accepted '=' member) (by decide)

theorem plain_padded (width : Nat) (n : Int) : Plain (padded width n) := by
  unfold padded
  rw [plain_append_iff, plain_append_iff]
  refine ⟨⟨?_, ?_⟩, ?_⟩
  · split
    · exact plain_of_any rfl
    · exact plain_of_any rfl
  · intro ch member
    rw [List.eq_of_mem_replicate member]
    rfl
  · exact plain_of_test (fun ch => Nat.isDigit_of_mem_toDigits (by decide) (by decide)) rfl

theorem plain_getD {names : List Str} (plain : names.all (fun s => !s.any isInvalidValueByte) = true)
    (i : Nat) : Plain (names.getD i []) := by
  rw [List.getD_eq_getElem?_getD]
  cases found : names[i]? with
  | none => exact plain_of_any rfl
  | some s =>
    have listed := List.all_eq_true.mp plain s (List.mem_of_getElem? found)
    exact plain_of_any (by simpa using listed)

theorem plain_formatImfFixdate (left : TmLeft) (epochSeconds : Int) :
    Plain (formatImfFixdate left epochSeconds) := by
  have day (i : Nat) : Plain (dayNames.getD i []) := plain_getD rfl i
  have month (i : Nat) : Plain (monthNames.getD i []) := plain_getD rfl i
  have comma : Plain [',', ' '] := plain_of_any rfl
  have blank : Plain [' '] := plain_of_any rfl
  have colon : Plain [':'] := plain_of_any rfl
  have zone : Plain [' ', 'G', 'M', 'T'] := plain_of_any rfl
  refine Plain.take ?_ 39
  simp only [plain_append_iff, plain_padded, day, month, comma, blank, colon, zone, and_self]

structure TargetsPlain (c : Cookie) : Prop where
  domain : Plain c.domain
  path : Plain c.path

theorem plain_of_validateAttrParam {setter v : Str}
    (accepted : validateAttrParam setter v = .ok ()) : Plain v := by
  unfold validateAttrParam at accepted
  split at accepted
  · cases accepted
  · rename_i line
    split at accepted
    · cases accepted
    · rename_i piece
      refine (plain_iff v).mpr ⟨fun ch member forbidden => line ?_, piece⟩
      exact List.any_eq_true.mpr ⟨ch, member, by simpa using forbidden⟩

theorem TargetsPlain.run {next : Cookie} (plain : c.TargetsPlain) {call : CookieCall}
    (ok : call.run c = .ok next) : next.TargetsPlain := by
  cases call with
  | withName v =>
    obtain ⟨-, rfl⟩ := checked_ok ok
    exact ⟨plain.domain, plain.path⟩
  | withValue v =>
    obtain ⟨-, rfl⟩ := checked_ok ok
    exact ⟨plain.domain, plain.path⟩
  | withDomain v =>
    obtain ⟨accepted, rfl⟩ := checked_ok ok
    exact ⟨plain_of_validateAttrParam accepted, plain.path⟩
  | withPath v =>
    obtain ⟨accepted, rfl⟩ := checked_ok ok
    exact ⟨plain.domain, plain_of_validateAttrParam accepted⟩
  | withExpires _ | withMaxAge _ | withSecure _ | withHttpOnly _ | withSameSite _ =>
    cases ok
    exact ⟨plain.domain, plain.path⟩

theorem TargetsPlain.after (plain : c.TargetsPlain) (call : CookieCall) :
    (c.after call).TargetsPlain := by
  unfold Cookie.after
  cases ran : call.run c with
  | ok next => exact plain.run ran
  | error e => exact plain

theorem Obtained.targetsPlain (obtained : c.Obtained) : c.TargetsPlain := by
  induction obtained with
  | constructed => exact ⟨plain_of_any rfl, plain_of_any rfl⟩
  | parsed listed =>
    obtain ⟨_, -, rfl⟩ := List.mem_map.mp listed
    exact ⟨plain_of_any rfl, plain_of_any rfl⟩
  | set _ call plain => exact plain.after call

theorem TargetsPlain.attributes (plain : c.TargetsPlain) {left : TmLeft} {text : Str}
    (listed : some text ∈ c.attributes left) : Plain text := by
  simp only [Cookie.attributes, List.mem_cons, List.not_mem_nil, or_false] at listed
  rcases listed with expires | maxAge | domain | path | secure | httpOnly | sameSite
  · obtain ⟨epochSeconds, -, rfl⟩ := Option.map_eq_some_iff.mp expires.symm
    exact (plain_append_iff _ _).mpr ⟨plain_of_any rfl, plain_formatImfFixdate left epochSeconds⟩
  · obtain ⟨seconds, -, rfl⟩ := Option.map_eq_some_iff.mp maxAge.symm
    exact (plain_append_iff _ _).mpr ⟨plain_of_any rfl, plain_padded 0 seconds⟩
  · split at domain
    · cases domain
    · cases domain
      exact (plain_append_iff _ _).mpr ⟨plain_of_any rfl, plain.domain⟩
  · split at path
    · cases path
    · cases path
      exact (plain_append_iff _ _).mpr ⟨plain_of_any rfl, plain.path⟩
  · split at secure
    · cases secure
      exact plain_of_any rfl
    · cases secure
  · split at httpOnly
    · cases httpOnly
      exact plain_of_any rfl
    · cases httpOnly
  · split at sameSite
    all_goals cases sameSite
    all_goals exact plain_of_any rfl

theorem TargetsPlain.pieces (plain : c.TargetsPlain) (renderable : c.Renderable) (left : TmLeft) :
    ∀ piece ∈ c.pieces left, Plain piece := by
  have equals : Plain ['='] := plain_of_any rfl
  intro piece listed
  rcases List.mem_cons.mp listed with rfl | other
  · rw [← List.singleton_append, plain_append_iff, plain_append_iff]
    exact ⟨plain_name renderable.2.1, equals, plain_of_any renderable.2.2⟩
  · obtain ⟨text, set, rfl⟩ := List.mem_map.mp other
    obtain ⟨_, listed, rfl⟩ := List.mem_filterMap.mp set
    have blank : Plain [' '] := plain_of_any rfl
    exact (plain_append_iff [' '] text).mpr ⟨blank, plain.attributes listed⟩

theorem Obtained.splitOn_line (obtained : c.Obtained) (renderable : c.Renderable) (left : TmLeft) :
    ([';'].intercalate (c.pieces left)).splitOn ';' = c.pieces left := by
  refine List.splitOn_intercalate ';' ?_ (List.cons_ne_nil _ _)
  intro piece listed
  exact ((plain_iff piece).mp (obtained.targetsPlain.pieces renderable left piece listed)).2

theorem Obtained.line_no_control (obtained : c.Obtained) (renderable : c.Renderable) (left : TmLeft) :
    ∀ ch ∈ [';'].intercalate (c.pieces left), ch ∉ forbiddenCtrlChars := by
  intro ch member
  rcases mem_intercalate member with separator | ⟨piece, listed, inside⟩
  · rw [List.mem_singleton.mp separator]
    decide
  · have plain := obtained.targetsPlain.pieces renderable left piece listed
    exact ((plain_iff piece).mp plain).1 ch inside

theorem secure_mem_attributes (crossSite : c.sameSite = .none) (left : TmLeft) :
    some "Secure".toList ∈ c.attributes left := by
  have flagged : (c.secure || c.sameSite = .none) = true := by simp [crossSite]
  exact List.mem_of_getElem? (i := 4) (congrArg some (if_pos flagged))

/-- Nothing that a cookie holds can add a line or a piece of its own. -/
theorem set_cookie_line_has_own_pieces {c : Cookie} (obtained : c.Obtained) (left : TmLeft) :
    (∃ e, c.toSetCookieHeader left = .error e) ∨
      ∃ text, c.toSetCookieHeader left = .ok text ∧ (∀ ch ∈ text, ch ∉ forbiddenCtrlChars) ∧
        text.splitOn ';' =
          (c.name ++ '=' :: c.value) :: ((c.attributes left).filterMap id).map (' ' :: ·) ∧
        '=' ∉ c.name ∧ (c.sameSite = .none → ' ' :: "Secure".toList ∈ text.splitOn ';') := by
  rcases c.toSetCookieHeader_cases left with ⟨renderable, -⟩ | ⟨-, failed⟩
  · have split := obtained.splitOn_line renderable left
    refine Or.inr ⟨_, toSetCookieHeader_eq_pieces renderable left,
      obtained.line_no_control renderable left, split, ?_, ?_⟩
    · exact equals_not_mem_name renderable.2.1
    · intro crossSite
      rw [split]
      apply List.mem_cons_of_mem
      apply List.mem_map_of_mem
      exact List.mem_filterMap.mpr ⟨_, secure_mem_attributes crossSite left, rfl⟩
  · exact Or.inl failed

def crossSiteCookie : Cookie :=
  [.withName "sid".toList, .withValue "1".toList, .withSameSite .none,
    .withPath "/; HttpOnly".toList].foldl after {}

theorem cross_site_cookie_has_own_pieces :
    crossSiteCookie.toSetCookieHeader untouchedTm = .ok "sid=1; Secure; SameSite=None".toList ∧
      ∃ text, crossSiteCookie.toSetCookieHeader untouchedTm = .ok text ∧
        text.splitOn ';' = ["sid=1".toList, " Secure".toList, " SameSite=None".toList] := by
  have obtained : crossSiteCookie.Obtained :=
    (((Obtained.constructed.set (.withName "sid".toList)).set (.withValue "1".toList)).set
      (.withSameSite .none)).set (.withPath "/; HttpOnly".toList)
  have line : crossSiteCookie.toSetCookieHeader untouchedTm = .ok "sid=1; Secure; SameSite=None".toList := rfl
  refine ⟨line, ?_⟩
  rcases set_cookie_line_has_own_pieces obtained untouchedTm with ⟨e, failed⟩ | ⟨text, ok, -, pieces, -⟩
  · rw [line] at failed
    cases failed
  · exact ⟨text, ok, pieces⟩

end Cookie
end HttpServer
