import Mathlib.Logic.Function.Basic
import HttpServer.CookieRendering
import HttpServer.HeaderMaps

/-!
How a program builds an `http_response`: the static factories, the `with_*`
setters and the moves between variables. Every field reaches its map through a
check for CR, LF and NUL; the text of a cookie is checked when it is rendered.
-/
namespace HttpServer
open Function (update update_self update_of_ne)

structure DigestChallenge where
  realm : Str
  opaqueText : Str := []
  domain : Str := []
  algorithm : DigestAlgorithm := .md5
  qopAuth : Bool := true
  qopAuthInt : Bool := false
  signalStale : Bool := false
  userhashSupport : Bool := false
  preferUtf8 : Bool := true
  responseBody : Str := []
  deriving DecidableEq, Repr

namespace HttpResponse

def emptyWithFlags (mhdFlags : Int) : HttpResponse where
  statusCode := 204
  body := some (.empty mhdFlags)

def stringWithType (responseBody contentType : Str) : Except Exc HttpResponse := do
  let r ← ({ statusCode := 200 } : HttpResponse).withHeader "Content-Type".toList contentType
  pure { r with body := some (.string responseBody) }

/-- `size` and `fd` are what opening the path came to. -/
def file (path : Str) (size : Nat) (fd : Int) : Except Exc HttpResponse := do
  let r ← ({ statusCode := 200 } : HttpResponse).withHeader "Content-Type".toList
    "application/octet-stream".toList
  pure { r with body := some (.file path size fd) }

def iovec (entries : List Str) : HttpResponse where
  statusCode := 200
  body := some (.iovec entries)

def pipe (fd : Int) : HttpResponse where
  statusCode := 200
  body := some (.pipe fd)

def deferred (producer : Nat) : HttpResponse where
  statusCode := 200
  body := some (.deferred producer)

def escapedRealm : Str → Str
  | [] => []
  | c :: rest =>
    if c = '\\' then '\\' :: c :: escapedRealm rest
    else if c = '"' then '\\' :: c :: escapedRealm rest
    else c :: escapedRealm rest

/-- The challenge; a realm with nothing to escape is appended as it is. -/
def challengeText (scheme realm : Str) : Str :=
  scheme ++ " realm=\"".toList ++
    (if realm.any fun c => c = '\\' || c = '"' then escapedRealm realm else realm) ++ ['"']

def unauthorized (scheme realm responseBody : Str) : Except Exc HttpResponse :=
  if scheme.any forbiddenFieldChars.contains then
    .error (.invalidArgument ("http_response::unauthorized: scheme contains forbidden control " ++
      "character (CR, LF, or NUL)").toList)
  else if realm.any forbiddenFieldChars.contains then
    .error (.invalidArgument ("http_response::unauthorized: realm contains forbidden control " ++
      "character (CR, LF, or NUL)").toList)
  else do
    let r ← ({ statusCode := 401 } : HttpResponse).withHeader "WWW-Authenticate".toList
      (challengeText scheme realm)
    pure { r with body := some (.string responseBody) }

def rejectCtrlChars (field value : Str) : Except Exc Unit :=
  if value.any forbiddenFieldChars.contains then
    .error (.invalidArgument ("http_response::unauthorized(digest_challenge): ".toList ++ field ++
      " contains forbidden control character (CR, LF, or NUL)".toList))
  else .ok ()

/-- The Digest factory. It adds no header: libmicrohttpd writes the challenge. -/
def unauthorizedDigest (haveDauth : Bool) (challenge : DigestChallenge) :
    Except Exc HttpResponse :=
  if haveDauth then do
    rejectCtrlChars "realm".toList challenge.realm
    rejectCtrlChars "opaque".toList challenge.opaqueText
    rejectCtrlChars "domain".toList challenge.domain
    rejectCtrlChars "response_body".toList challenge.responseBody
    if challenge.qopAuthInt then
      .error (.invalidArgument ("http_response::unauthorized(digest_challenge): " ++
        "qop_auth_int (qop=\"auth-int\") is not implemented; " ++ "leave it false").toList)
    else
      pure
        { statusCode := 401
          body := some (.digestChallenge
            { realm := challenge.realm
              opaqueText := challenge.opaqueText
              domain := challenge.domain
              bodyText := challenge.responseBody
              algorithm := challenge.algorithm
              qopAuth := challenge.qopAuth
              signalStale := challenge.signalStale
              userhashSupport := challenge.userhashSupport
              preferUtf8 := challenge.preferUtf8 }) }
  else .error (.stdException
    "feature 'digest_auth' unavailable: built without HAVE_DAUTH".toList)

def withFooter (r : HttpResponse) (key value : Str) : Except Exc HttpResponse := do
  validateHttpField "with_footer".toList key value
  pure { r with footers := HeaderMap.insertOrAssign key value r.footers }

def sameCookieName (existing new : Cookie) : Bool :=
  !headerComparator existing.name new.name && !headerComparator new.name existing.name

def replaceOrAppend (new : Cookie) : List Cookie → List Cookie
  | [] => [new]
  | existing :: rest =>
    if sameCookieName existing new then new :: rest else existing :: replaceOrAppend new rest

/-- `with_cookie(key, value)`. The cookie is built, and checked, first. -/
def withCookiePair (r : HttpResponse) (key value : Str) : Except Exc HttpResponse :=
  match (({} : Cookie).withName key).bind fun c => c.withValue value with
  | .error e => .error (.invalidArgument e.message)
  | .ok new => .ok { r with structuredCookies := replaceOrAppend new r.structuredCookies }

def movedFrom (r : HttpResponse) : HttpResponse := { statusCode := r.statusCode }

end HttpResponse

inductive Factory where
  | construct
  | empty (mhdFlags : Int)
  | string (responseBody contentType : Str)
  | file (path : Str) (size : Nat) (fd : Int)
  | iovec (entries : List Str)
  | pipe (fd : Int)
  | deferred (producer : Nat)
  | unauthorized (scheme realm responseBody : Str)
  | unauthorizedDigest (haveDauth : Bool) (challenge : DigestChallenge)

def Factory.make : Factory → Except Exc HttpResponse
  | .construct => .ok {}
  | .empty mhdFlags => .ok (.emptyWithFlags mhdFlags)
  | .string responseBody contentType => HttpResponse.stringWithType responseBody contentType
  | .file path size fd => HttpResponse.file path size fd
  | .iovec entries => .ok (.iovec entries)
  | .pipe fd => .ok (.pipe fd)
  | .deferred producer => .ok (.deferred producer)
  | .unauthorized scheme realm responseBody => HttpResponse.unauthorized scheme realm responseBody
  | .unauthorizedDigest haveDauth challenge => HttpResponse.unauthorizedDigest haveDauth challenge

abbrev Responses := Nat → HttpResponse

inductive ResponseOp where
  | make (x : Nat) (factory : Factory)
  | withHeader (x : Nat) (key value : Str)
  | withFooter (x : Nat) (key value : Str)
  | withCookiePair (x : Nat) (key value : Str)
  | withCookie (x : Nat) (c : { c : Cookie // c.Obtained })
  | withStatus (x : Nat) (code : Int)
  | move (dst src : Nat)

namespace Responses

/-- A call that throws leaves every variable as it was. -/
def assign (s : Responses) (x : Nat) : Except Exc HttpResponse → Responses
  | .ok r => update s x r
  | .error _ => s

/-- Move construction and move assignment; a response assigned to itself stays. -/
def move (s : Responses) (dst src : Nat) : Responses :=
  if dst = src then s
  else update (update s dst (s src)) src (s src).movedFrom

def step (s : Responses) : ResponseOp → Responses
  | .make x factory => s.assign x factory.make
  | .withHeader x key value => s.assign x ((s x).withHeader key value)
  | .withFooter x key value => s.assign x ((s x).withFooter key value)
  | .withCookiePair x key value => s.assign x ((s x).withCookiePair key value)
  | .withCookie x c => s.assign x (.ok ((s x).withCookie c.1))
  | .withStatus x code => s.assign x ((s x).withStatus code)
  | .move dst src => s.move dst src

def run (s : Responses) (ops : List ResponseOp) : Responses := ops.foldl step s

variable {P : HttpResponse → Prop} {s : Responses}

theorem forall_run (start : ∀ x, P (s x))
    (step : ∀ s op, (∀ x, P (s x)) → ∀ x, P (Responses.step s op x)) (ops : List ResponseOp) :
    ∀ x, P (run s ops x) := by
  refine List.foldlRecOn (motive := fun s : Responses => ∀ x, P (s x)) ops Responses.step start ?_
  intro s all op _
  exact step s op all

theorem forall_assign (all : ∀ x, P (s x)) {x : Nat} {result : Except Exc HttpResponse}
    (good : ∀ r, result = .ok r → P r) : ∀ y, P (s.assign x result y) := by
  intro y
  cases result with
  | error e => exact all y
  | ok r =>
    rcases eq_or_ne y x with rfl | other
    · rw [assign, update_self]
      exact good r rfl
    · rw [assign, update_of_ne other]
      exact all y

theorem forall_move (all : ∀ x, P (s x)) (left : ∀ r, P r → P r.movedFrom) (dst src : Nat) :
    ∀ y, P (s.move dst src y) := by
  intro y
  unfold move
  split
  · exact all y
  · rcases eq_or_ne y src with rfl | other
    · rw [update_self]
      exact left _ (all y)
    · rw [update_of_ne other]
      rcases eq_or_ne y dst with rfl | apart
      · rw [update_self]
        exact all src
      · rw [update_of_ne apart]
        exact all y

end Responses

def HttpResponse.Obtained (r : HttpResponse) : Prop :=
  ∃ ops x, r = Responses.run (fun _ => {}) ops x

/-- What code that is given `r`, in variable 0, can make of it. -/
def HttpResponse.EditedTo (r next : HttpResponse) : Prop :=
  ∃ ops, next = Responses.run (update (fun _ => {}) 0 r) ops 0

inductive FieldCall where
  | header (name value : Str)
  | footer (name value : Str)
  deriving DecidableEq, Repr

def FieldCall.name : FieldCall → Str
  | .header name _ => name
  | .footer name _ => name

def FieldCall.value : FieldCall → Str
  | .header _ value => value
  | .footer _ value => value

/-- The cookies that are rendered, with their lines. The exception of one that
    does not render ends the loop. -/
def renderedCookies (left : TmLeft) : List Cookie → List (Cookie × Str)
  | [] => []
  | c :: rest =>
    match c.toSetCookieHeader left with
    | .ok line => (c, line) :: renderedCookies left rest
    | .error _ => []

def HttpResponse.fieldCalls (r : HttpResponse) (left : TmLeft) : List FieldCall :=
  r.headers.map (fun kv => .header kv.1 kv.2) ++ r.footers.map (fun kv => .footer kv.1 kv.2) ++
    (renderedCookies left r.structuredCookies).map fun cookie =>
      .header "Set-Cookie".toList cookie.2

variable {r : HttpResponse} {left : TmLeft}

theorem mem_renderedCookies {c : Cookie} {line : Str} {cookies : List Cookie}
    (rendered : (c, line) ∈ renderedCookies left cookies) :
    c ∈ cookies ∧ c.toSetCookieHeader left = .ok line := by
  induction cookies with
  | nil => cases rendered
  | cons first rest ih =>
    rw [renderedCookies] at rendered
    split at rendered
    · rename_i text ok
      rcases List.mem_cons.mp rendered with here | later
      · cases here
        exact ⟨List.mem_cons_self, ok⟩
      · exact ⟨List.mem_cons_of_mem first (ih later).1, (ih later).2⟩
    · cases rendered

theorem renderedCookies_lines {cookies : List Cookie} {lines : List Str}
    (ok : cookies.mapM (Cookie.toSetCookieHeader · left) = .ok lines) :
    (renderedCookies left cookies).map Prod.snd = lines := by
  induction cookies generalizing lines with
  | nil =>
    cases ok
    rfl
  | cons first rest ih =>
    rw [List.mapM_cons] at ok
    cases line : first.toSetCookieHeader left with
    | error e =>
      rw [line] at ok
      cases ok
    | ok text =>
      rw [line] at ok
      cases others : rest.mapM (Cookie.toSetCookieHeader · left) with
      | error e =>
        rw [others] at ok
        cases ok
      | ok texts =>
        rw [others] at ok
        cases ok
        rw [renderedCookies, line]
        exact congrArg (text :: ·) (ih others)

def CleanText (s : Str) : Prop := ∀ ch ∈ s, ch ∉ forbiddenFieldChars

theorem cleanText_iff (s : Str) : CleanText s ↔ s.any forbiddenFieldChars.contains = false := by
  simp [CleanText]

theorem cleanText_of_all {s : Str} (clean : s.any forbiddenFieldChars.contains = false) :
    CleanText s := (cleanText_iff s).mpr clean

def CleanMap (map : HeaderMap) : Prop := ∀ kv ∈ map, CleanText kv.1 ∧ CleanText kv.2

structure HttpResponse.FieldsClean (r : HttpResponse) : Prop where
  headers : CleanMap r.headers
  footers : CleanMap r.footers
  cookies : ∀ c ∈ r.structuredCookies, c.Obtained

theorem cleanMap_nil : CleanMap [] := fun _ listed => absurd listed List.not_mem_nil

theorem validateHttpField_ok {setterName key value : Str}
    (ok : validateHttpField setterName key value = .ok ()) : CleanText key ∧ CleanText value := by
  unfold validateHttpField at ok
  split at ok
  · cases ok
  · rename_i name
    split at ok
    · cases ok
    · rename_i text
      exact ⟨cleanText_of_all (by simpa using name), cleanText_of_all (by simpa using text)⟩

namespace HttpResponse.FieldsClean
variable {r next : HttpResponse}

theorem of_no_fields (headers : r.headers = []) (footers : r.footers = [])
    (cookies : r.structuredCookies = []) : r.FieldsClean where
  headers := headers ▸ cleanMap_nil
  footers := footers ▸ cleanMap_nil
  cookies _ listed := absurd (cookies ▸ listed) List.not_mem_nil

theorem withBody (clean : r.FieldsClean) (body : ResponseBody) :
    FieldsClean { r with body := some body } := ⟨clean.headers, clean.footers, clean.cookies⟩

variable {key value : Str}

theorem withHeader (clean : r.FieldsClean) (ok : r.withHeader key value = .ok next) :
    next.FieldsClean := by
  obtain ⟨accepted, rfl⟩ := checked_ok ok
  obtain ⟨name, text⟩ := validateHttpField_ok accepted
  exact ⟨HeaderMap.insertOrAssign_all clean.headers name text, clean.footers, clean.cookies⟩

theorem withFooter (clean : r.FieldsClean) (ok : r.withFooter key value = .ok next) :
    next.FieldsClean := by
  obtain ⟨accepted, rfl⟩ := checked_ok ok
  obtain ⟨name, text⟩ := validateHttpField_ok accepted
  exact ⟨clean.headers, HeaderMap.insertOrAssign_all clean.footers name text, clean.cookies⟩

theorem header_then_body (clean : r.FieldsClean) {body : ResponseBody} (ok : (do
      let started ← r.withHeader key value
      pure { started with body := some body }) = Except.ok next) : next.FieldsClean := by
  cases header : r.withHeader key value with
  | error e =>
    rw [header] at ok
    cases ok
  | ok started =>
    rw [header] at ok
    cases ok
    exact (clean.withHeader header).withBody body

theorem withCookie (clean : r.FieldsClean) {c : Cookie} (obtained : c.Obtained) :
    (r.withCookie c).FieldsClean where
  headers := clean.headers
  footers := clean.footers
  cookies := List.forall_mem_append.mpr ⟨clean.cookies, List.forall_mem_singleton.mpr obtained⟩

theorem mem_replaceOrAppend {new c : Cookie} {cookies : List Cookie}
    (listed : c ∈ replaceOrAppend new cookies) : c = new ∨ c ∈ cookies := by
  induction cookies with
  | nil => exact Or.inl (List.mem_singleton.mp listed)
  | cons existing rest ih =>
    rw [replaceOrAppend] at listed
    split at listed
    · rcases List.mem_cons.mp listed with first | later
      · exact Or.inl first
      · exact Or.inr (List.mem_cons_of_mem existing later)
    · rcases List.mem_cons.mp listed with first | later
      · exact Or.inr (first ▸ List.mem_cons_self)
      · rcases ih later with same | stored
        · exact Or.inl same
        · exact Or.inr (List.mem_cons_of_mem existing stored)

theorem withCookiePair (clean : r.FieldsClean) (ok : r.withCookiePair key value = .ok next) :
    next.FieldsClean := by
  unfold HttpResponse.withCookiePair at ok
  split at ok
  · cases ok
  · rename_i new built
    cases ok
    refine ⟨clean.headers, clean.footers, fun c listed => ?_⟩
    rcases mem_replaceOrAppend listed with rfl | stored
    · cases named : ({} : Cookie).withName key with
      | error e =>
        rw [named] at built
        cases built
      | ok half =>
        rw [named] at built
        have first := Cookie.Obtained.constructed.of_ok (.withName key) named
        exact first.of_ok (.withValue value) built
    · exact clean.cookies c stored

theorem withStatus (clean : r.FieldsClean) {code : Int}
    (ok : r.withStatus code = .ok next) : next.FieldsClean := by
  unfold HttpResponse.withStatus at ok
  split at ok
  · cases ok
  · cases ok
    exact ⟨clean.headers, clean.footers, clean.cookies⟩

end HttpResponse.FieldsClean

theorem Factory.fieldsClean {factory : Factory} (made : factory.make = .ok r) : r.FieldsClean := by
  have start (code : Int) : HttpResponse.FieldsClean { statusCode := code } :=
    .of_no_fields rfl rfl rfl
  cases factory with
  | construct | empty _ | iovec _ | pipe _ | deferred _ =>
    cases made
    exact .of_no_fields rfl rfl rfl
  | string responseBody contentType => exact (start 200).header_then_body made
  | file path size fd => exact (start 200).header_then_body made
  | unauthorized scheme realm responseBody =>
    rw [make, HttpResponse.unauthorized] at made
    split at made
    · cases made
    · split at made
      · cases made
      · exact (start 401).header_then_body made
  | unauthorizedDigest haveDauth challenge =>
    rw [make, HttpResponse.unauthorizedDigest] at made
    split at made
    · have placed := (checks_first (checks_first (checks_first (checks_first made).2).2).2).2
      split at placed
      · cases placed
      · cases placed
        exact .of_no_fields rfl rfl rfl
    · cases made

theorem Responses.fieldsClean_step (s : Responses) (op : ResponseOp)
    (clean : ∀ x, (s x).FieldsClean) : ∀ x, (s.step op x).FieldsClean := by
  cases op with
  | make x factory => exact forall_assign clean fun r made => Factory.fieldsClean made
  | withHeader x key value => exact forall_assign clean fun r ok => (clean x).withHeader ok
  | withFooter x key value => exact forall_assign clean fun r ok => (clean x).withFooter ok
  | withCookiePair x key value => exact forall_assign clean fun r ok => (clean x).withCookiePair ok
  | withCookie x c =>
    rw [step]
    apply forall_assign clean
    intro r ok
    cases ok
    exact (clean x).withCookie c.2
  | withStatus x code => exact forall_assign clean fun r ok => (clean x).withStatus ok
  | move dst src => exact forall_move clean (fun r _ => .of_no_fields rfl rfl rfl) dst src

theorem HttpResponse.Obtained.fieldsClean (obtained : r.Obtained) : r.FieldsClean := by
  obtain ⟨ops, x, rfl⟩ := obtained
  exact Responses.forall_run (fun _ => .of_no_fields rfl rfl rfl) Responses.fieldsClean_step ops x

theorem HttpResponse.EditedTo.fieldsClean {next : HttpResponse} (edited : r.EditedTo next)
    (clean : r.FieldsClean) : next.FieldsClean := by
  obtain ⟨ops, rfl⟩ := edited
  refine Responses.forall_run (fun x => ?_) Responses.fieldsClean_step ops 0
  have start : HttpResponse.FieldsClean {} := .of_no_fields rfl rfl rfl
  rcases eq_or_ne x 0 with rfl | other
  · rw [update_self]
    exact clean
  · rw [update_of_ne other]
    exact start

theorem Cookie.Obtained.cleanText {c : Cookie} (obtained : c.Obtained) {line : Str}
    (rendered : c.toSetCookieHeader left = .ok line) : CleanText line := by
  rcases c.toSetCookieHeader_cases left with ⟨renderable, -⟩ | ⟨-, e, failed⟩
  · rw [Cookie.toSetCookieHeader_eq_pieces renderable left] at rendered
    cases rendered
    exact obtained.line_no_control renderable left
  · rw [failed] at rendered
    cases rendered

theorem HttpResponse.FieldsClean.fieldCalls (clean : r.FieldsClean) (left : TmLeft) :
    ∀ call ∈ r.fieldCalls left, CleanText call.name ∧ CleanText call.value := by
  intro call listed
  rcases List.mem_append.mp listed with field | cookie
  · rcases List.mem_append.mp field with header | footer
    · obtain ⟨kv, stored, rfl⟩ := List.mem_map.mp header
      exact clean.headers kv stored
    · obtain ⟨kv, stored, rfl⟩ := List.mem_map.mp footer
      exact clean.footers kv stored
  · obtain ⟨⟨c, line⟩, rendered, rfl⟩ := List.mem_map.mp cookie
    obtain ⟨stored, ok⟩ := mem_renderedCookies rendered
    exact ⟨cleanText_of_all rfl, (clean.cookies c stored).cleanText ok⟩

end HttpServer
