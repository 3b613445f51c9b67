import Mathlib.Data.List.Forall2
import Mathlib.Data.List.Induction
import HttpServer.HeaderMaps

/-!
The diagnostic dump of a live request, `operator<<` on `http_request`. What
libmicrohttpd lists for a connection is data of the request; the header and
argument maps are filled from it as the accessors fill them. With
`expose_credentials_in_logs` off, the dump hides everything secret except what
a `Cookie` header or footer repeats.
-/
namespace HttpServer
open Fields

/-- A request of a live connection, as far as the dump reads it. Basic
    credentials come with an optional password, arguments with an optional
    value. libmicrohttpd ends a field at the end of its line. -/
structure LiveRequest where
  method : Str
  path : Str
  version : Str
  basicAuth : Option (Str × Option Str) := none
  headers : List (Str × Str) := []
  footers : List (Str × Str) := []
  cookies : List (Str × Str) := []
  arguments : List (Str × Option Str) := []
  unescapedArgs : List (Str × List Str) := []
  peer : Option (Str × Nat) := none
  oneLine : ∀ field ∈ headers ++ footers, '\n' ∉ field.1 ∧ '\n' ∉ field.2

/-- The options the dump and the accessors depend on. A limit of 0 stands for
    a connection that sets none. -/
structure DumpConfig where
  haveBauth : Bool := true
  exposeCredentialsInLogs : Bool := false
  unescaper : Option (Str → Str) := none
  maxArgsCount : Nat := 0
  maxArgsBytes : Nat := 0

def getUser (cfg : DumpConfig) (r : LiveRequest) : Str :=
  if cfg.haveBauth then (r.basicAuth.map (·.1)).getD [] else []

def getPass (cfg : DumpConfig) (r : LiveRequest) : Str :=
  if cfg.haveBauth then (r.basicAuth.bind (·.2)).getD [] else []

/-- `ensure_headerlike_cache`: `build_request_header` once for every value. -/
def headerlikeCache (values : List (Str × Str)) : HeaderMap :=
  values.foldl (fun map field => HeaderMap.insertOrAssign field.1 field.2 map) []

def getArgs (cfg : DumpConfig) (r : LiveRequest) : ArgMap :=
  (({ unescapedArgs := r.unescapedArgs } : RequestArgs).getArgs
    ⟨r.arguments, cfg.unescaper, cfg.maxArgsCount, cfg.maxArgsBytes⟩).2

def getRequestor (r : LiveRequest) : Str := (r.peer.map (·.1)).getD []

def getRequestorPort (r : LiveRequest) : Nat := (r.peer.map (·.2)).getD 0

def redacted : Str := "<redacted>".toList

def isAuthorizationHeaderKey (key : Str) : Bool :=
  iequalAscii key "Authorization".toList || iequalAscii key "Proxy-Authorization".toList

def dumpMapRedacted (title : Str) (map : HeaderMap) (valueFor : Str × Str → Str) : Str :=
  if map = [] then []
  else "    ".toList ++ title ++ " [".toList ++
    (map.flatMap fun kv => kv.1 ++ ":\"".toList ++ valueFor kv ++ "\" ".toList) ++ "]\n".toList

def dumpHeaderMap (title : Str) (map : HeaderMap) : Str := dumpMapRedacted title map fun kv => kv.2

def dumpHeaderMapRedacted (title : Str) (map : HeaderMap) : Str :=
  dumpMapRedacted title map fun kv => if isAuthorizationHeaderKey kv.1 then redacted else kv.2

def dumpCookieMapRedacted (title : Str) (map : HeaderMap) : Str :=
  dumpMapRedacted title map fun _ => redacted

def dumpArgMap (title : Str) (map : ArgMap) : Str :=
  if map = [] then []
  else "    ".toList ++ title ++ " [".toList ++
    (map.flatMap fun kv => kv.1 ++ ":[".toList ++
      ", ".toList.intercalate (kv.2.map fun v => '"' :: v ++ ['"']) ++ "] ".toList) ++ "]\n".toList

def operatorStream (cfg : DumpConfig) (r : LiveRequest) : Str :=
  let expose := cfg.exposeCredentialsInLogs
  let dumpHeaders := if expose then dumpHeaderMap else dumpHeaderMapRedacted
  let dumpCookies := if expose then dumpHeaderMap else dumpCookieMapRedacted
  let passOut := if expose then getPass cfg r else redacted
  r.method ++ " Request [".toList ++ "user:\"".toList ++ getUser cfg r ++ "\" ".toList ++
    "pass:\"".toList ++ passOut ++ "\"".toList ++ "] path:\"".toList ++ r.path ++ "\"\n".toList ++
    dumpHeaders "Headers".toList (headerlikeCache r.headers) ++
    dumpHeaders "Footers".toList (headerlikeCache r.footers) ++
    dumpCookies "Cookies".toList (headerlikeCache r.cookies) ++
    dumpArgMap "Query Args".toList (getArgs cfg r) ++
    "    Version [ ".toList ++ r.version ++ " ] Requestor [ ".toList ++ getRequestor r ++
    " ] Port [ ".toList ++ (toString (getRequestorPort r)).toList ++ " ]\n".toList

def cookieName : Str := "Cookie".toList

def CredentialName (name : Str) : Prop :=
  isAuthorizationHeaderKey name = true ∨ iequalAscii name cookieName = true

/-- The same name, and the same value unless the value of such a name is hidden. -/
def SameField (hidden : Str → Prop) (a b : Str × Str) : Prop :=
  a.1 = b.1 ∧ (¬hidden a.1 → a.2 = b.2)

structure SameButCredentials (cfg : DumpConfig) (a b : LiveRequest) : Prop where
  method : a.method = b.method
  path : a.path = b.path
  version : a.version = b.version
  user : getUser cfg a = getUser cfg b
  arguments : a.arguments = b.arguments
  unescapedArgs : a.unescapedArgs = b.unescapedArgs
  peer : a.peer = b.peer
  headers : List.Forall₂ (SameField CredentialName) a.headers b.headers
  footers : List.Forall₂ (SameField CredentialName) a.footers b.footers
  cookies : List.Forall₂ (SameField fun _ => True) a.cookies b.cookies

def lastCookieField (fields : List (Str × Str)) : Option Str :=
  ((fields.filter fun field => iequalAscii field.1 cookieName).getLast?).map (·.2)

variable {x y title : Str} {a b : Str × Str} {map : HeaderMap}

theorem credentialName_caseless (same : iequalAscii x y = true) (credential : CredentialName x) :
    CredentialName y := by
  simpa only [CredentialName, isAuthorizationHeaderKey, iequalAscii_trans same] using credential

section
variable {hidden : Str → Prop}
  (caseless : ∀ {x y : Str}, iequalAscii x y = true → hidden x → hidden y)

include caseless in
theorem sameFields_insertOrAssign {left right : HeaderMap} {key x y : Str}
    (maps : List.Forall₂ (SameField hidden) left right) (field : ¬hidden key → x = y) :
    List.Forall₂ (SameField hidden) (HeaderMap.insertOrAssign key x left)
      (HeaderMap.insertOrAssign key y right) := by
  induction maps with
  | nil => exact .cons ⟨rfl, field⟩ .nil
  | @cons a b left right head rest ih =>
    obtain ⟨name, value⟩ := head
    simp only [HeaderMap.insertOrAssign, ← name]
    split
    · exact .cons ⟨rfl, field⟩ (.cons ⟨rfl, value⟩ rest)
    · split
      · exact .cons ⟨rfl, value⟩ ih
      · rename_i front behind
        have folded : iequalAscii key a.1 = true :=
          (unordered_iff _ _).mp ⟨by simpa using front, by simpa using behind⟩
        exact .cons ⟨rfl, fun plain => field fun sealed => plain (caseless folded sealed)⟩ rest

include caseless in
theorem sameFields_headerlikeCache {left right : List (Str × Str)}
    (fields : List.Forall₂ (SameField hidden) left right) :
    List.Forall₂ (SameField hidden) (headerlikeCache left) (headerlikeCache right) := by
  have loop : ∀ (m n : HeaderMap), List.Forall₂ (SameField hidden) m n →
      List.Forall₂ (SameField hidden)
        (left.foldl (fun map field => HeaderMap.insertOrAssign field.1 field.2 map) m)
        (right.foldl (fun map field => HeaderMap.insertOrAssign field.1 field.2 map) n) := by
    induction fields with
    | nil => exact fun m n maps => maps
    | @cons a b left right head rest ih =>
      intro m n maps
      obtain ⟨name, value⟩ := head
      rw [List.foldl_cons, List.foldl_cons, ← name]
      exact ih _ _ (sameFields_insertOrAssign caseless maps value)
  exact loop [] [] .nil

end

theorem sorted_headerlikeCache (fields : List (Str × Str)) : (headerlikeCache fields).Sorted :=
  HeaderMap.sorted_assigned Prod.fst Prod.snd fields

theorem valueOf_headerlikeCache (fields : List (Str × Str)) :
    (headerlikeCache fields).valueOf cookieName = lastCookieField fields :=
  HeaderMap.valueOf_assigned Prod.fst Prod.snd fields cookieName

theorem headerlikeCache_all {P Q : Str → Prop} {fields : List (Str × Str)}
    (all : ∀ field ∈ fields, P field.1 ∧ Q field.2) :
    ∀ kv ∈ headerlikeCache fields, P kv.1 ∧ Q kv.2 := by
  induction fields using List.reverseRecOn with
  | nil => simp [headerlikeCache]
  | append_singleton front last ih =>
    rw [headerlikeCache, List.foldl_concat]
    obtain ⟨named, valued⟩ := all last (by simp)
    exact HeaderMap.insertOrAssign_all (ih fun field member => all field (by simp [member]))
      named valued

def redactedField (kv : Str × Str) : Str :=
  kv.1 ++ ":\"".toList ++ (if isAuthorizationHeaderKey kv.1 then redacted else kv.2) ++
    "\" ".toList

theorem redactedField_eq (same : SameField CredentialName a b)
    (other : ¬iequalAscii a.1 cookieName = true) : redactedField a = redactedField b := by
  obtain ⟨name, value⟩ := same
  unfold redactedField
  rw [← name]
  by_cases credential : isAuthorizationHeaderKey a.1 = true
  · rw [if_pos credential, if_pos credential]
  · rw [if_neg credential, if_neg credential, value]
    rintro (authorization | cookie)
    · exact credential authorization
    · exact other cookie

theorem cookie_not_authorization {name : Str} (cookie : iequalAscii name cookieName = true) :
    isAuthorizationHeaderKey name = false := by
  rw [isAuthorizationHeaderKey, iequalAscii_trans cookie, iequalAscii_trans cookie]
  rfl

theorem redactedField_cookie_iff (same : SameField CredentialName a b)
    (cookie : iequalAscii a.1 cookieName = true) :
    redactedField a = redactedField b ↔ a.2 = b.2 := by
  have plain := cookie_not_authorization cookie
  unfold redactedField
  rw [← same.1, plain]
  simp

variable {left right : HeaderMap} {cfg : DumpConfig}

theorem redactedFields_eq (maps : List.Forall₂ (SameField CredentialName) left right)
    (other : ∀ kv ∈ left, ¬iequalAscii kv.1 cookieName = true) :
    left.flatMap redactedField = right.flatMap redactedField := by
  induction maps with
  | nil => rfl
  | @cons a b left right head rest ih =>
    rw [List.flatMap_cons, List.flatMap_cons, redactedField_eq head (other a (by simp)),
      ih fun kv member => other kv (by simp [member])]

theorem redactedFields_iff (maps : List.Forall₂ (SameField CredentialName) left right)
    (sorted : left.Sorted) :
    left.flatMap redactedField = right.flatMap redactedField ↔
      left.valueOf cookieName = right.valueOf cookieName := by
  induction maps with
  | nil => simp
  | @cons a b left right head rest ih =>
    obtain ⟨least, below⟩ := List.pairwise_cons.mp sorted
    rw [List.flatMap_cons, List.flatMap_cons, HeaderMap.valueOf_cons, HeaderMap.valueOf_cons,
      ← head.1]
    by_cases cookie : iequalAscii a.1 cookieName = true
    · have single : ∀ kv ∈ left, ¬iequalAscii kv.1 cookieName = true := by
        intro kv member also
        have folded : iequalAscii a.1 kv.1 = true := by
          rw [iequalAscii_iff] at *
          rw [cookie, also]
        have before := least kv member
        rw [((unordered_iff _ _).mpr folded).1] at before
        cases before
      rw [redactedFields_eq rest single, if_pos cookie, if_pos cookie, List.append_left_inj,
        redactedField_cookie_iff head cookie, Option.some.injEq]
    · rw [redactedField_eq head cookie, if_neg cookie, if_neg cookie, List.append_right_inj,
        ih below]

def sectionLine (title : Str) (map : HeaderMap) : Str :=
  "    ".toList ++ title ++ " [".toList ++ map.flatMap redactedField ++ [']']

theorem dumpHeaderMapRedacted_line (title : Str) (some : map ≠ []) :
    dumpHeaderMapRedacted title map = sectionLine title map ++ ['\n'] := by
  have close : "]\n".toList = [']'] ++ ['\n'] := rfl
  have fields : (map.flatMap fun kv => kv.1 ++ ":\"".toList ++
      (if isAuthorizationHeaderKey kv.1 then redacted else kv.2) ++ "\" ".toList) =
        map.flatMap redactedField := rfl
  unfold dumpHeaderMapRedacted dumpMapRedacted sectionLine
  rw [if_neg some, fields, close]
  simp only [List.append_assoc]

theorem dumpHeaderMapRedacted_pair (title : Str)
    (maps : List.Forall₂ (SameField CredentialName) left right) :
    left = [] ∧ right = [] ∨
      dumpHeaderMapRedacted title left = sectionLine title left ++ ['\n'] ∧
        dumpHeaderMapRedacted title right = sectionLine title right ++ ['\n'] := by
  cases maps with
  | nil => exact Or.inl ⟨rfl, rfl⟩
  | cons head rest =>
    exact Or.inr ⟨dumpHeaderMapRedacted_line title (List.cons_ne_nil _ _),
      dumpHeaderMapRedacted_line title (List.cons_ne_nil _ _)⟩

theorem sectionLine_inj (title : Str) :
    sectionLine title left = sectionLine title right ↔
      left.flatMap redactedField = right.flatMap redactedField := by
  unfold sectionLine
  rw [List.append_left_inj, List.append_right_inj]

theorem dumpHeaderMapRedacted_iff (title : Str)
    (maps : List.Forall₂ (SameField CredentialName) left right) (sorted : left.Sorted) :
    dumpHeaderMapRedacted title left = dumpHeaderMapRedacted title right ↔
      left.valueOf cookieName = right.valueOf cookieName := by
  rw [← redactedFields_iff maps sorted, ← sectionLine_inj title]
  rcases dumpHeaderMapRedacted_pair title maps with ⟨rfl, rfl⟩ | ⟨lineL, lineR⟩
  · simp
  · rw [lineL, lineR, List.append_left_inj]

theorem sectionLine_oneLine (plain : '\n' ∉ title) (oneLine : ∀ kv ∈ map, '\n' ∉ kv.1 ∧ '\n' ∉ kv.2) :
    '\n' ∉ sectionLine title map := by
  have shown : ∀ kv ∈ map, '\n' ∉ redactedField kv := by
    intro kv member
    obtain ⟨named, valued⟩ := oneLine kv member
    have value : '\n' ∉ (if isAuthorizationHeaderKey kv.1 then redacted else kv.2) := by
      split
      · decide
      · exact valued
    exact List.not_mem_append (List.not_mem_append (List.not_mem_append named (by decide)) value)
      (by decide)
  have fields : '\n' ∉ map.flatMap redactedField := by
    intro inside
    obtain ⟨kv, member, here⟩ := List.mem_flatMap.mp inside
    exact shown kv member here
  have opening : '\n' ∉ "    ".toList ++ title ++ " [".toList :=
    List.not_mem_append (List.not_mem_append (by decide) plain) (by decide)
  exact List.not_mem_append (List.not_mem_append opening fields) (by decide)

theorem dumpHeaderMapRedacted_append (plain : '\n' ∉ title)
    (maps : List.Forall₂ (SameField CredentialName) left right)
    (oneLineL : ∀ kv ∈ left, '\n' ∉ kv.1 ∧ '\n' ∉ kv.2)
    (oneLineR : ∀ kv ∈ right, '\n' ∉ kv.1 ∧ '\n' ∉ kv.2)
    (same : dumpHeaderMapRedacted title left ++ x = dumpHeaderMapRedacted title right ++ y) :
    dumpHeaderMapRedacted title left = dumpHeaderMapRedacted title right ∧ x = y := by
  rcases dumpHeaderMapRedacted_pair title maps with ⟨rfl, rfl⟩ | ⟨lineL, lineR⟩
  · exact ⟨rfl, List.append_cancel_left same⟩
  · rw [lineL, lineR] at same ⊢
    rw [List.append_assoc, List.append_assoc, List.singleton_append, List.singleton_append] at same
    obtain ⟨lines, rest⟩ := append_sep_inj (sectionLine_oneLine plain oneLineL)
      (sectionLine_oneLine plain oneLineR) same
    exact ⟨by rw [lines], rest⟩

theorem dumpCookieMapRedacted_eq (title : Str)
    (maps : List.Forall₂ (SameField fun _ => True) left right) :
    dumpCookieMapRedacted title left = dumpCookieMapRedacted title right := by
  have shown : (left.flatMap fun kv => kv.1 ++ ":\"".toList ++ redacted ++ "\" ".toList) =
      right.flatMap fun kv => kv.1 ++ ":\"".toList ++ redacted ++ "\" ".toList := by
    induction maps with
    | nil => rfl
    | cons head rest ih => rw [List.flatMap_cons, List.flatMap_cons, head.1, ih]
  unfold dumpCookieMapRedacted dumpMapRedacted
  rw [shown]
  cases maps with
  | nil => rfl
  | cons head rest => rfl

def dumpOpening (cfg : DumpConfig) (r : LiveRequest) : Str :=
  r.method ++ " Request [".toList ++ "user:\"".toList ++ getUser cfg r ++ "\" ".toList ++
    "pass:\"".toList ++ redacted ++ "\"".toList ++ "] path:\"".toList ++ r.path ++ "\"\n".toList

def dumpClosing (cfg : DumpConfig) (r : LiveRequest) : Str :=
  dumpCookieMapRedacted "Cookies".toList (headerlikeCache r.cookies) ++
    dumpArgMap "Query Args".toList (getArgs cfg r) ++
    "    Version [ ".toList ++ r.version ++ " ] Requestor [ ".toList ++ getRequestor r ++
    " ] Port [ ".toList ++ (toString (getRequestorPort r)).toList ++ " ]\n".toList

theorem operatorStream_redacting (redacting : cfg.exposeCredentialsInLogs = false) (r : LiveRequest) :
    operatorStream cfg r = dumpOpening cfg r ++
      (dumpHeaderMapRedacted "Headers".toList (headerlikeCache r.headers) ++
        (dumpHeaderMapRedacted "Footers".toList (headerlikeCache r.footers) ++
          dumpClosing cfg r)) := by
  unfold operatorStream dumpOpening dumpClosing
  rw [redacting]
  simp only [Bool.false_eq_true, if_false, List.append_assoc]

theorem dumpOpening_eq {a b : LiveRequest} (same : SameButCredentials cfg a b) :
    dumpOpening cfg a = dumpOpening cfg b := by
  rw [dumpOpening, dumpOpening, same.method, same.user, same.path]

theorem dumpClosing_eq {a b : LiveRequest} (same : SameButCredentials cfg a b) :
    dumpClosing cfg a = dumpClosing cfg b := by
  have cookies := dumpCookieMapRedacted_eq "Cookies".toList
    (sameFields_headerlikeCache (fun _ sealed => sealed) same.cookies)
  rw [dumpClosing, dumpClosing, cookies, getArgs, getArgs, same.arguments, same.unescapedArgs,
    same.version, getRequestor, getRequestor, getRequestorPort, getRequestorPort, same.peer]

theorem headerlikeCache_oneLine (r : LiveRequest) :
    ∀ kv ∈ headerlikeCache r.headers, '\n' ∉ kv.1 ∧ '\n' ∉ kv.2 :=
  @headerlikeCache_all (fun k => '\n' ∉ k) (fun v => '\n' ∉ v) r.headers
    fun field member => r.oneLine field (List.mem_append_left _ member)

/-- Two requests that differ in credentials are dumped alike exactly when the
    last `Cookie` header is the same in both, and the last `Cookie` footer. -/
theorem dump_hides_credentials_iff (cfg : DumpConfig)
    (redacting : cfg.exposeCredentialsInLogs = false) (a b : LiveRequest)
    (same : SameButCredentials cfg a b) :
    operatorStream cfg a = operatorStream cfg b ↔
      lastCookieField a.headers = lastCookieField b.headers ∧
        lastCookieField a.footers = lastCookieField b.footers := by
  have headers := sameFields_headerlikeCache credentialName_caseless same.headers
  have footers := sameFields_headerlikeCache credentialName_caseless same.footers
  have head := dumpHeaderMapRedacted_iff "Headers".toList headers (sorted_headerlikeCache _)
  have foot := dumpHeaderMapRedacted_iff "Footers".toList footers (sorted_headerlikeCache _)
  rw [valueOf_headerlikeCache, valueOf_headerlikeCache] at head foot
  rw [operatorStream_redacting redacting, operatorStream_redacting redacting, dumpOpening_eq same,
    dumpClosing_eq same, List.append_right_inj, ← head, ← foot]
  constructor
  · intro text
    obtain ⟨above, rest⟩ := dumpHeaderMapRedacted_append (by decide) headers
      (headerlikeCache_oneLine a) (headerlikeCache_oneLine b) text
    exact ⟨above, List.append_cancel_right rest⟩
  · rintro ⟨above, below⟩
    rw [above, below]

def firstLogin : LiveRequest where
  method := "GET".toList
  path := "/".toList
  version := "HTTP/1.1".toList
  basicAuth := some ("ann".toList, some "alpha".toList)
  headers := [("Host".toList, "h".toList), ("AUTHORIZATION".toList, "Basic YW46YWxwaGE".toList)]
  cookies := [("sid".toList, "1".toList)]
  oneLine := by decide

def secondLogin : LiveRequest :=
  { firstLogin with
    basicAuth := some ("ann".toList, none)
    headers := [("Host".toList, "h".toList), ("AUTHORIZATION".toList, "Basic eno".toList)]
    cookies := [("sid".toList, "22".toList)]
    oneLine := by decide }

theorem login_dumps_agree :
    operatorStream {} firstLogin = operatorStream {} secondLogin := by
  refine (dump_hides_credentials_iff {} rfl firstLogin secondLogin ?_).mpr ⟨rfl, rfl⟩
  have authorization : CredentialName "AUTHORIZATION".toList := Or.inl rfl
  exact ⟨rfl, rfl, rfl, rfl, rfl, rfl, rfl,
    .cons ⟨rfl, fun _ => rfl⟩ (.cons ⟨rfl, fun plain => absurd authorization plain⟩ .nil),
    .nil, .cons ⟨rfl, fun shown => absurd trivial shown⟩ .nil⟩

def cookieRequest (value : Str) (oneLine : '\n' ∉ value) : LiveRequest where
  method := "GET".toList
  path := "/".toList
  version := "HTTP/1.1".toList
  headers := [(cookieName, "sid=".toList ++ value)]
  cookies := [("sid".toList, value)]
  oneLine := by
    intro field member
    rw [List.append_nil, List.mem_singleton] at member
    subst member
    have named : '\n' ∉ cookieName := by decide
    have opened : '\n' ∉ "sid=".toList := by decide
    exact ⟨named, fun inside => (List.mem_append.mp inside).elim opened oneLine⟩

/-- The raw `Cookie` header is dumped with the session identifier in it. -/
theorem cookie_header_leaks :
    SameButCredentials {} (cookieRequest "1".toList (by decide)) (cookieRequest "22".toList (by decide)) ∧
      operatorStream {} (cookieRequest "1".toList (by decide)) ≠
        operatorStream {} (cookieRequest "22".toList (by decide)) := by
  constructor
  · have cookie : CredentialName cookieName := Or.inr rfl
    exact ⟨rfl, rfl, rfl, rfl, rfl, rfl, rfl,
      .cons ⟨rfl, fun plain => absurd cookie plain⟩ .nil, .nil,
      .cons ⟨rfl, fun shown => absurd trivial shown⟩ .nil⟩
  · intro text
    have lengths := congrArg List.length text
    exact absurd lengths (by decide +kernel)

end HttpServer
