import HttpServer.Cookie

/-!
`http_response`: the value user code builds and the library hands to
libmicrohttpd. Headers and footers are maps ordered by `header_comparator`;
cookies are kept in the order they were added. The body is what the factories
make; only libmicrohttpd's acceptance of it is left open.
-/
namespace HttpServer

/-- What a C++ `throw` raises, as far as the catch arms tell exceptions apart. -/
inductive Exc where
  | invalidArgument (what : Str)
  | stdException (what : Str)
  | other
  deriving DecidableEq, Repr

def Exc.message : Exc → Str
  | .invalidArgument what => what
  | .stdException what => what
  | .other => "unknown exception".toList

abbrev HeaderMap := List (Str × Str)

def httpHeaderToupper (c : Char) : Nat := if 'a' ≤ c ∧ c ≤ 'z' then c.toNat - 32 else c.toNat

def comparatorLoop (op : Char → Nat) : Str → Str → Bool
  | x :: xs, y :: ys =>
    if op x < op y then true else if op y < op x then false else comparatorLoop op xs ys
  | _, _ => false

def headerComparator (x y : Str) : Bool :=
  if x.length < y.length then true
  else if y.length < x.length then false
  else comparatorLoop httpHeaderToupper x y

/-- `insert_or_assign`: an equivalent key keeps its spelling and gets the value. -/
def HeaderMap.insertOrAssign (key value : Str) : HeaderMap → HeaderMap
  | [] => [(key, value)]
  | (k, v) :: rest =>
    if headerComparator key k then (key, value) :: (k, v) :: rest
    else if headerComparator k key then (k, v) :: HeaderMap.insertOrAssign key value rest
    else (k, value) :: rest

inductive DigestAlgorithm where
  | md5 | sha256 | sha512_256
  deriving DecidableEq, Repr

structure DigestParams where
  realm : Str
  opaqueText : Str
  domain : Str
  bodyText : Str
  algorithm : DigestAlgorithm
  qopAuth : Bool
  signalStale : Bool
  userhashSupport : Bool
  preferUtf8 : Bool
  deriving DecidableEq, Repr

/-- The bodies the factories make. `fd` is -1 when the file could not be opened
    as a regular file; a producer is a name. -/
inductive ResponseBody where
  | empty (flags : Int)
  | string (data : Str)
  | file (path : Str) (size : Nat) (fd : Int)
  | iovec (entries : List Str)
  | pipe (fd : Int)
  | deferred (producer : Nat)
  | digestChallenge (params : DigestParams)
  deriving DecidableEq, Repr

namespace ResponseBody

def size : ResponseBody → Nat
  | .empty _ => 0
  | .string data => data.length
  | .file _ size _ => size
  | .iovec entries => entries.foldl (fun total e => total + e.length) 0
  | .pipe _ => 0
  | .deferred _ => 0
  | .digestChallenge params => params.bodyText.length

/-- Whether `materialize` gives a response object. `creates` is libmicrohttpd's
    answer to the `MHD_create_response_*` call for the body. -/
def materialize (creates : ResponseBody → Bool) (b : ResponseBody) : Bool :=
  match b with
  | .file _ _ fd => if fd = -1 then false else creates b
  | .iovec entries => if entries.length > UInt32.size - 1 then false else creates b
  | _ => creates b

end ResponseBody

structure HttpResponse where
  statusCode : Int := -1
  headers : HeaderMap := []
  footers : HeaderMap := []
  structuredCookies : List Cookie := []
  body : Option ResponseBody := none
  deriving DecidableEq, Repr

def forbiddenFieldChars : List Char := ['\r', '\n', '\x00']

def validateHttpField (setterName key value : Str) : Except Exc Unit :=
  if key.any forbiddenFieldChars.contains then
    .error (.invalidArgument
      (setterName ++ ": key contains forbidden control character (CR, LF, or NUL)".toList))
  else if value.any forbiddenFieldChars.contains then
    .error (.invalidArgument
      (setterName ++ ": value contains forbidden control character (CR, LF, or NUL)".toList))
  else .ok ()

namespace HttpResponse

def string (responseBody : Str) : HttpResponse where
  statusCode := 200
  headers := [("Content-Type".toList, "text/plain".toList)]
  body := some (.string responseBody)

def empty : HttpResponse where
  statusCode := 204
  body := some (.empty 0)

def withHeader (r : HttpResponse) (key value : Str) : Except Exc HttpResponse := do
  validateHttpField "with_header".toList key value
  pure { r with headers := HeaderMap.insertOrAssign key value r.headers }

def withStatus (r : HttpResponse) (code : Int) : Except Exc HttpResponse :=
  if code < 100 ∨ 599 < code then
    .error (.invalidArgument "with_status: HTTP status code out of range [100, 599]".toList)
  else .ok { r with statusCode := code }

/-- `with_cookie(cookie)`: no check is made. -/
def withCookie (r : HttpResponse) (c : Cookie) : HttpResponse :=
  { r with structuredCookies := r.structuredCookies ++ [c] }

def page (text : Str) (code : Int) : HttpResponse := { string text with statusCode := code }

def empty500 : HttpResponse := { empty with statusCode := 500 }

def materializes (creates : ResponseBody → Bool) (r : HttpResponse) : Bool :=
  r.body.any (ResponseBody.materialize creates)

def bytesQueued (r : HttpResponse) : Nat := (r.body.map ResponseBody.size).getD 0

/-- The `Set-Cookie` lines `decorate_mhd_response` adds, in order; it stops at
    the first cookie that does not render. -/
def setCookieLines (r : HttpResponse) (left : TmLeft) : Except CookieError (List Str) :=
  r.structuredCookies.mapM (Cookie.toSetCookieHeader · left)

def CookiesRenderable (r : HttpResponse) : Prop := ∀ c ∈ r.structuredCookies, c.Renderable

instance (r : HttpResponse) : Decidable r.CookiesRenderable :=
  inferInstanceAs (Decidable (∀ c ∈ r.structuredCookies, c.Renderable))

theorem setCookieLines_cases (r : HttpResponse) (left : TmLeft) :
    (r.CookiesRenderable ∧ ∃ lines, r.setCookieLines left = .ok lines) ∨
      (¬r.CookiesRenderable ∧ ∃ e, r.setCookieLines left = .error e) := by
  unfold setCookieLines CookiesRenderable
  induction r.structuredCookies with
  | nil => exact Or.inl ⟨by simp, [], rfl⟩
  | cons c rest ih =>
    rw [List.mapM_cons]
    rcases c.toSetCookieHeader_cases left with ⟨first, text, line⟩ | ⟨bad, e, failed⟩
    · rw [line]
      rcases ih with ⟨others, lines, rendered⟩ | ⟨bad, e, failed⟩
      · rw [rendered]
        exact Or.inl ⟨List.forall_mem_cons.mpr ⟨first, others⟩, text :: lines, rfl⟩
      · rw [failed]
        exact Or.inr ⟨fun all => bad (List.forall_mem_cons.mp all).2, e, rfl⟩
    · rw [failed]
      exact Or.inr ⟨fun all => bad (List.forall_mem_cons.mp all).1, e, rfl⟩

end HttpResponse
end HttpServer
