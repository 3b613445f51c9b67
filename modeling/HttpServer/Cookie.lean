import HttpServer.Text

/-!
`cookie`: its validating setters, the `Set-Cookie` text it renders to and the
parser of request cookie headers. The parser fills the fields without the
setters' checks, and a default-constructed cookie has an empty name, so the
renderer checks again and refuses what it cannot write.
-/
namespace HttpServer

inductive SameSiteMode where
  | unset | strict | lax | none
  deriving DecidableEq, Repr

structure Cookie where
  name : Str := []
  value : Str := []
  domain : Str := []
  path : Str := []
  expires : Option Int := .none
  maxAge : Option Int := .none
  secure : Bool := false
  httpOnly : Bool := false
  sameSite : SameSiteMode := .unset
  deriving DecidableEq, Repr

inductive CookieError where
  | forbiddenName (ctx : Str)
  | forbiddenValue (ctx : Str)
  | attributeControl (setter : Str)
  | attributeSemicolon (setter : Str)
  | attributeComma (setter : Str)
  | emptyName
  deriving DecidableEq, Repr

def CookieError.message : CookieError → Str
  | .forbiddenName ctx =>
    ctx ++ (": name contains forbidden character " ++
      "(CR, LF, NUL, whitespace, ';', '=', or other control)").toList
  | .forbiddenValue ctx =>
    ctx ++ (": value contains forbidden character " ++ "(CR, LF, NUL, or ';')").toList
  | .attributeControl setter =>
    setter ++ (": attribute value contains forbidden control character " ++
      "(CR, LF, or NUL)").toList
  | .attributeSemicolon setter =>
    setter ++ ": attribute value contains forbidden character (';')".toList
  | .attributeComma setter =>
    setter ++ (": attribute value contains forbidden character (','); " ++
      "commas can split Set-Cookie headers in legacy HTTP/1.0 parsers").toList
  | .emptyName =>
    ("cookie::to_set_cookie_header: name is empty -- a cookie " ++
      "with no name is not a valid Set-Cookie").toList

def forbiddenCtrlChars : List Char := ['\r', '\n', '\x00']

def isInvalidNameByte (c : Char) : Bool :=
  c.toNat ≤ 0x20 || c.toNat = 0x7f || c = ';' || c = '='

def isInvalidValueByte (c : Char) : Bool := forbiddenCtrlChars.contains c || c = ';'

def validateName (v ctx : Str) : Except CookieError Unit :=
  if v.any isInvalidNameByte then .error (.forbiddenName ctx) else .ok ()

def validateValue (v ctx : Str) : Except CookieError Unit :=
  if v.any isInvalidValueByte then .error (.forbiddenValue ctx) else .ok ()

def validateAttrParam (setter v : Str) : Except CookieError Unit :=
  if v.any forbiddenCtrlChars.contains then .error (.attributeControl setter)
  else if ';' ∈ v then .error (.attributeSemicolon setter)
  else if ',' ∈ v then .error (.attributeComma setter)
  else .ok ()

structure Tm where
  wday : Int := 0
  mday : Int := 0
  mon : Int := 0
  year : Int := 0
  hour : Int := 0
  min : Int := 0
  sec : Int := 0
  deriving DecidableEq, Repr

/-- `gmtime_r` on the proleptic Gregorian calendar; it fails when the year does not
    fit the `int` of `tm_year`. -/
def gmtimeR (t : Int) : Option Tm :=
  let days := t / 86400
  let rest := t % 86400
  let z := days + 719468
  let era := z / 146097
  let doe := z % 146097
  let yoe := (doe - doe / 1460 + doe / 36524 - doe / 146096) / 365
  let doy := doe - (365 * yoe + yoe / 4 - yoe / 100)
  let mp := (5 * doy + 2) / 153
  let month := if mp < 10 then mp + 3 else mp - 9
  let year := yoe + era * 400 + (if month ≤ 2 then 1 else 0)
  if -2147483648 ≤ year - 1900 ∧ year - 1900 ≤ 2147483647 then
    some
      { wday := (days + 4) % 7
        mday := doy - (153 * mp + 2) / 5 + 1
        mon := month - 1
        year := year - 1900
        hour := rest / 3600
        min := rest % 3600 / 60
        sec := rest % 60 }
  else none

/-- What a `gmtime_r` that fails leaves in the zeroed `tm` it was given. C and POSIX
    do not say, and glibc writes some of the fields. -/
abbrev TmLeft := Int → Tm

/-- A `gmtime_r` that writes nothing when it fails. -/
def untouchedTm : TmLeft := fun _ => {}

/-- The `tm` that `format_imf_fixdate` reads, without a look at what `gmtime_r` returned. -/
def tmRead (left : TmLeft) (t : Int) : Tm := (gmtimeR t).getD (left t)

/-- `%0*d`: the sign counts towards the width. -/
def padded (width : Nat) (n : Int) : Str :=
  let digits := Nat.toDigits 10 n.natAbs
  let sign := if n < 0 then ['-'] else []
  sign ++ List.replicate (width - sign.length - digits.length) '0' ++ digits

def dayNames : List Str := ["Sun", "Mon", "Tue", "Wed", "Thu", "Fri", "Sat"].map String.toList

def monthNames : List Str :=
  ["Jan", "Feb", "Mar", "Apr", "May", "Jun", "Jul", "Aug", "Sep", "Oct", "Nov", "Dec"].map
    String.toList

/-- `format_imf_fixdate`. The buffer holds 39 characters and the terminator. -/
def formatImfFixdate (left : TmLeft) (epochSeconds : Int) : Str :=
  let tm := tmRead left epochSeconds
  let wday := if 0 ≤ tm.wday ∧ tm.wday < 7 then tm.wday.toNat else 0
  let mon := if 0 ≤ tm.mon ∧ tm.mon < 12 then tm.mon.toNat else 0
  (dayNames.getD wday [] ++ [',', ' '] ++ padded 2 tm.mday ++ [' '] ++ monthNames.getD mon [] ++
    [' '] ++ padded 4 (tm.year + 1900) ++ [' '] ++ padded 2 tm.hour ++ [':'] ++
    padded 2 tm.min ++ [':'] ++ padded 2 tm.sec ++ [' ', 'G', 'M', 'T']).take 39

namespace Cookie

def withName (c : Cookie) (v : Str) : Except CookieError Cookie := do
  validateName v "cookie::with_name".toList
  pure { c with name := v }

def withValue (c : Cookie) (v : Str) : Except CookieError Cookie := do
  validateValue v "cookie::with_value".toList
  pure { c with value := v }

def withDomain (c : Cookie) (v : Str) : Except CookieError Cookie := do
  validateAttrParam "cookie::with_domain".toList v
  pure { c with domain := v }

def withPath (c : Cookie) (v : Str) : Except CookieError Cookie := do
  validateAttrParam "cookie::with_path".toList v
  pure { c with path := v }

def withExpires (c : Cookie) (epochSeconds : Int) : Cookie := { c with expires := some epochSeconds }

def withMaxAge (c : Cookie) (seconds : Int) : Cookie := { c with maxAge := some seconds }

def withSecure (c : Cookie) (v : Bool) : Cookie := { c with secure := v }

def withHttpOnly (c : Cookie) (v : Bool) : Cookie := { c with httpOnly := v }

def withSameSite (c : Cookie) (v : SameSiteMode) : Cookie := { c with sameSite := v }

def timeAttributes (c : Cookie) (left : TmLeft) : Str :=
  (match c.expires with
    | some epochSeconds => "; Expires=".toList ++ formatImfFixdate left epochSeconds
    | .none => []) ++
  (match c.maxAge with
    | some seconds => "; Max-Age=".toList ++ padded 0 seconds
    | .none => [])

def targetAttributes (c : Cookie) : Str :=
  (if c.domain = [] then [] else "; Domain=".toList ++ c.domain) ++
  (if c.path = [] then [] else "; Path=".toList ++ c.path)

def flagAttributes (c : Cookie) : Str :=
  (if c.secure || c.sameSite = .none then "; Secure".toList else []) ++
  (if c.httpOnly then "; HttpOnly".toList else [])

def sameSiteAttributeText : SameSiteMode → Str
  | .strict => "; SameSite=Strict".toList
  | .lax => "; SameSite=Lax".toList
  | .none => "; SameSite=None".toList
  | .unset => []

def toSetCookieHeader (c : Cookie) (left : TmLeft) : Except CookieError Str :=
  if c.name = [] then .error .emptyName
  else do
    validateName c.name "cookie::to_set_cookie_header".toList
    validateValue c.value "cookie::to_set_cookie_header".toList
    pure (c.name ++ ['='] ++ c.value ++ c.timeAttributes left ++ c.targetAttributes ++
      c.flagAttributes ++ sameSiteAttributeText c.sameSite)

def Renderable (c : Cookie) : Prop :=
  c.name ≠ [] ∧ c.name.any isInvalidNameByte = false ∧ c.value.any isInvalidValueByte = false

instance (c : Cookie) : Decidable c.Renderable :=
  inferInstanceAs (Decidable (c.name ≠ [] ∧ c.name.any isInvalidNameByte = false ∧
    c.value.any isInvalidValueByte = false))

theorem toSetCookieHeader_cases (c : Cookie) (left : TmLeft) :
    (c.Renderable ∧ ∃ text, c.toSetCookieHeader left = .ok text) ∨
      (¬c.Renderable ∧ ∃ e, c.toSetCookieHeader left = .error e) := by
  unfold toSetCookieHeader validateName validateValue
  by_cases unnamed : c.name = []
  · refine Or.inr ⟨fun renderable => renderable.1 unnamed, .emptyName, ?_⟩
    rw [if_pos unnamed]
  · rw [if_neg unnamed]
    by_cases badName : c.name.any isInvalidNameByte = true
    · refine Or.inr ⟨fun renderable => ?_,
        .forbiddenName "cookie::to_set_cookie_header".toList, ?_⟩
      · exact Bool.false_ne_true (renderable.2.1.symm.trans badName)
      · rw [if_pos badName]
        rfl
    · rw [if_neg badName]
      by_cases badValue : c.value.any isInvalidValueByte = true
      · refine Or.inr ⟨fun renderable => ?_,
          .forbiddenValue "cookie::to_set_cookie_header".toList, ?_⟩
        · exact Bool.false_ne_true (renderable.2.2.symm.trans badValue)
        · rw [if_pos badValue]
          rfl
      · rw [if_neg badValue]
        exact Or.inl ⟨⟨unnamed, by simpa using badName, by simpa using badValue⟩, _, rfl⟩

def isBlank (c : Char) : Bool := c = ' ' || c = '\t'

def trimWs (s : Str) : Str := ((s.dropWhile isBlank).reverse.dropWhile isBlank).reverse

def parseCookieToken (tok : Str) : Option (Str × Str) :=
  let tok := trimWs tok
  if '=' ∈ tok then
    let name := tok.takeWhile (· ≠ '=')
    let value := (tok.dropWhile (· ≠ '=')).drop 1
    let value :=
      if 2 ≤ value.length ∧ value.head? = some '"' ∧ value.getLast? = some '"' then
        (value.drop 1).dropLast
      else value
    let name := trimWs name
    if name = [] then .none else some (name, value)
  else .none

/-- `parse_cookie_header`: the fields are set past the setters' checks. -/
def parseCookieHeader (headerValue : Str) : List Cookie :=
  ((headerValue.splitOn ';').filterMap parseCookieToken).map fun (name, value) =>
    { name := name, value := value }

end Cookie
end HttpServer
