import Mathlib.Data.Finset.Basic
import Mathlib.Data.Option.Basic
import HttpServer.HookFiring

/-!
The `Allow` header of an `http_resource` and its cache. The text is built once
and kept with the mask it was built from; the mutators of the mask do not know
about it, and the copy and move operations, written by hand, leave the target
without one. Over any calls on any number of objects the text that is returned
lists the methods that the calls have allowed on that object.
-/
namespace HttpServer
open Fields

def HttpMethod.ofIndex (i : Nat) : HttpMethod := allMethods.getD i .count_

def appendAllowed (allowed : MethodSet) (headerValue : Str) (m : HttpMethod) : Str :=
  if !allowed.contains m then headerValue
  else (if headerValue ≠ [] then headerValue ++ [',', ' '] else headerValue) ++ m.wireToken

def formatAllowHeaderLoop (allowed : MethodSet) : Str :=
  (List.range HttpMethod.count_.index).foldl
    (fun headerValue i => appendAllowed allowed headerValue (HttpMethod.ofIndex i)) []

/-- An `http_resource`; the hook table is the one a `shared_ptr` points to. -/
structure HttpResource where
  methodsAllowed : MethodSet := MethodSet.setAll
  hookTable : Option Nat := none
  cachedAllowHeader : Str := []
  cachedAllowMask : MethodSet := MethodSet.noMethods
  cachedAllowValid : Bool := false
  deriving DecidableEq

namespace HttpResource

def setAllowing (r : HttpResource) (method : HttpMethod) (allow : Bool) : HttpResource :=
  if method = .count_ then r
  else if allow then { r with methodsAllowed := r.methodsAllowed.set method }
  else { r with methodsAllowed := r.methodsAllowed.clear method }

def allowAll (r : HttpResource) : HttpResource := { r with methodsAllowed := MethodSet.setAll }

def disallowAll (r : HttpResource) : HttpResource := { r with methodsAllowed := MethodSet.noMethods }

def isAllowed (r : HttpResource) (method : HttpMethod) : Bool := r.methodsAllowed.contains method

def ensureTable (r : HttpResource) (fresh : Nat) : HttpResource :=
  { r with hookTable := r.hookTable.or (some fresh) }

def copyConstruct (b : HttpResource) : HttpResource :=
  { methodsAllowed := b.methodsAllowed, hookTable := b.hookTable }

def moveConstruct (b : HttpResource) : HttpResource :=
  { methodsAllowed := b.methodsAllowed, hookTable := b.hookTable }

def movedFrom (b : HttpResource) : HttpResource := { b with hookTable := none }

def assign (r b : HttpResource) : HttpResource :=
  { r with
    hookTable := b.hookTable
    methodsAllowed := b.methodsAllowed
    cachedAllowValid := false
    cachedAllowHeader := [] }

def fillAllowHeader (r : HttpResource) : HttpResource :=
  if r.cachedAllowValid = false ∨ r.cachedAllowMask ≠ r.methodsAllowed then
    { r with
      cachedAllowHeader := formatAllowHeaderLoop r.methodsAllowed
      cachedAllowMask := r.methodsAllowed
      cachedAllowValid := true }
  else r

def getAllowHeader (r : HttpResource) : Str × HttpResource :=
  if r.cachedAllowValid = true ∧ r.cachedAllowMask = r.methodsAllowed then (r.cachedAllowHeader, r)
  else (r.fillAllowHeader.cachedAllowHeader, r.fillAllowHeader)

end HttpResource

inductive ResourceCall where
  | construct (target : Nat)
  | destroy (target : Nat)
  | setAllowing (target : Nat) (method : HttpMethod) (allow : Bool)
  | allowAll (target : Nat)
  | disallowAll (target : Nat)
  | ensureTable (target fresh : Nat)
  | copyConstruct (target source : Nat)
  | moveConstruct (target source : Nat)
  | copyAssign (target source : Nat)
  | moveAssign (target source : Nat)
  | getAllowHeader (target : Nat)

abbrev Objects (σ : Type) := Nat → Option σ

namespace Objects
variable {σ : Type}

def none_ : Objects σ := fun _ => none

def put (s : Objects σ) (target : Nat) (r : σ) : Objects σ := Function.update s target (some r)

def change (s : Objects σ) (target : Nat) (f : σ → σ) : Objects σ :=
  Function.update s target ((s target).map f)

variable {s : Objects σ} {target : Nat}

theorem put_eq_self {r : σ} (same : s target = some r) : s.put target r = s := by
  rw [put, ← same, Function.update_eq_self]

theorem change_eq_self {f : σ → σ} (same : (s target).map f = s target) :
    s.change target f = s := by
  rw [change, same, Function.update_eq_self]

end Objects

open Objects HttpResource

def stepResources (s : Objects HttpResource) : ResourceCall → Objects HttpResource
  | .construct target => s.put target {}
  | .destroy target => Function.update s target none
  | .setAllowing target method allow => s.change target (setAllowing · method allow)
  | .allowAll target => s.change target allowAll
  | .disallowAll target => s.change target disallowAll
  | .ensureTable target fresh => s.change target (ensureTable · fresh)
  | .copyConstruct target source => (s source).elim s fun b => s.put target b.copyConstruct
  | .moveConstruct target source =>
    (s source).elim s fun b => (s.put source b.movedFrom).put target b.moveConstruct
  | .copyAssign target source =>
    if target = source then s else (s source).elim s fun b => s.change target (assign · b)
  | .moveAssign target source =>
    if target = source then s
    else (s target).elim s fun r => (s source).elim s fun b =>
      (s.put source b.movedFrom).put target (r.assign b)
  | .getAllowHeader target => s.change target fun r => r.getAllowHeader.2

def resourcesAfter (calls : List ResourceCall) : Objects HttpResource :=
  calls.foldl stepResources none_

def allowing (methods : Finset HttpMethod) (method : HttpMethod) (allow : Bool) :
    Finset HttpMethod :=
  if method = .count_ then methods
  else if allow then insert method methods
  else methods.erase method

/-- The methods allowed on each object, without masks and caches. -/
def stepAllowed (s : Objects (Finset HttpMethod)) : ResourceCall → Objects (Finset HttpMethod)
  | .construct target => s.put target allMethods.toFinset
  | .destroy target => Function.update s target none
  | .setAllowing target method allow => s.change target (allowing · method allow)
  | .allowAll target => s.change target fun _ => allMethods.toFinset
  | .disallowAll target => s.change target fun _ => ∅
  | .copyConstruct target source => (s source).elim s (s.put target)
  | .moveConstruct target source => (s source).elim s (s.put target)
  | .copyAssign target source => (s source).elim s fun methods => s.change target fun _ => methods
  | .moveAssign target source => (s source).elim s fun methods => s.change target fun _ => methods
  | .ensureTable _ _ => s
  | .getAllowHeader _ => s

def allowedAfter (calls : List ResourceCall) : Objects (Finset HttpMethod) :=
  calls.foldl stepAllowed none_

def listed (text : Str) : List Str := (fields ',' text).map (·.dropWhile (· = ' '))

/-- The text lists these methods: each once, no others, with `, ` between them. -/
structure Lists (text : Str) (methods : Finset HttpMethod) : Prop where
  separated : text = [',', ' '].intercalate (listed text)
  once : ∀ m ∈ methods, (listed text).count m.wireToken = 1
  only : ∀ token ∈ listed text, ∃ m ∈ methods, token = m.wireToken
  filled : text = [] → methods = ∅

theorem mem_allMethods_iff (m : HttpMethod) : m ∈ allMethods ↔ m ≠ .count_ := by
  cases m <;> decide

variable {m : HttpMethod} {allowed : MethodSet} {tokens : List Str}

theorem wireToken_ne_nil (proper : m ∈ allMethods) : m.wireToken ≠ [] := by
  have checked : (allMethods.all fun m => m.wireToken ≠ []) = true := rfl
  simpa using List.all_eq_true.mp checked m proper

theorem appendAllowed_eq (full : ∀ token ∈ tokens, token ≠ []) :
    appendAllowed allowed ([',', ' '].intercalate tokens) m = [',', ' '].intercalate
      (tokens ++ if allowed.contains m then [m.wireToken] else []) := by
  unfold appendAllowed
  cases allowed.contains m with
  | false => simp
  | true =>
    cases tokens with
    | nil => simp
    | cons token tokens =>
      obtain ⟨c, token, rfl⟩ := List.exists_cons_of_ne_nil (full token List.mem_cons_self)
      have filled : [',', ' '].intercalate ((c :: token) :: tokens) ≠ [] := by
        rw [intercalate_cons_head]
        exact List.cons_ne_nil _ _
      simp only [Bool.not_true, Bool.false_eq_true, if_false, if_pos filled, if_true]
      rw [intercalate_append _ (List.cons_ne_nil _ _) (List.cons_ne_nil _ _), List.append_assoc,
        List.intercalate_singleton]

theorem foldl_appendAllowed (allowed : MethodSet) {ms : List HttpMethod}
    (proper : ∀ m ∈ ms, m ∈ allMethods) :
    ms.foldl (appendAllowed allowed) [] =
      [',', ' '].intercalate ((ms.filter allowed.contains).map HttpMethod.wireToken) := by
  induction ms using List.reverseRecOn with
  | nil => rfl
  | append_singleton ms m ih =>
    have full : ∀ token ∈ (ms.filter allowed.contains).map HttpMethod.wireToken, token ≠ [] := by
      intro token listed
      obtain ⟨n, kept, rfl⟩ := List.mem_map.mp listed
      exact wireToken_ne_nil (proper n (List.mem_append_left _ (List.mem_filter.mp kept).1))
    rw [List.foldl_append, ih fun n listed => proper n (List.mem_append_left _ listed),
      List.foldl_cons, List.foldl_nil, appendAllowed_eq full, List.filter_append, List.map_append]
    cases kept : allowed.contains m with
    | false => simp [kept]
    | true => simp [kept]

theorem formatAllowHeaderLoop_eq (allowed : MethodSet) :
    formatAllowHeaderLoop allowed = formatAllowHeader allowed := by
  have order : (List.range HttpMethod.count_.index).map HttpMethod.ofIndex = allMethods := rfl
  rw [formatAllowHeaderLoop, formatAllowHeader, ← foldl_appendAllowed allowed fun m listed => listed,
    ← order, List.foldl_map]

theorem dropWhile_blank {token : Str} (clean : ' ' ∉ token) :
    token.dropWhile (· = ' ') = token := by
  cases token with
  | nil => rfl
  | cons c rest =>
    have other : ¬ c = ' ' := fun blank => clean (blank ▸ List.mem_cons_self)
    rw [List.dropWhile_cons_of_neg (by simpa using other)]

theorem listed_intercalate (clean : ∀ token ∈ tokens, token ≠ [] ∧ ',' ∉ token ∧ ' ' ∉ token) :
    listed ([',', ' '].intercalate tokens) = tokens := by
  cases tokens with
  | nil => rfl
  | cons token rest =>
    have pieces := fields_intercalate_pair (show ',' ≠ ' ' by decide)
      fun token listed => ⟨(clean token listed).1, (clean token listed).2.1⟩
    obtain ⟨first, later⟩ := List.forall_mem_cons.mp clean
    have stripped : rest.map ((·.dropWhile (· = ' ')) ∘ (' ' :: ·)) = rest.map id := by
      refine List.map_congr_left fun other member => ?_
      rw [Function.comp_apply, List.dropWhile_cons_of_pos rfl]
      exact dropWhile_blank (later other member).2.2
    rw [listed, pieces, List.map_cons, List.map_map, dropWhile_blank first.2.2, stripped,
      List.map_id]

theorem wireTokens_plain :
    (allMethods.all fun m => m.wireToken ≠ [] && ',' ∉ m.wireToken && ' ' ∉ m.wireToken) = true := by
  decide

theorem nodup_wireTokens : (allMethods.map HttpMethod.wireToken).Nodup := by
  decide

theorem listed_formatAllowHeader (allowed : MethodSet) :
    listed (formatAllowHeader allowed) =
      (allMethods.filter allowed.contains).map HttpMethod.wireToken := by
  refine listed_intercalate fun token listed => ?_
  obtain ⟨m, kept, rfl⟩ := List.mem_map.mp listed
  have plain := List.all_eq_true.mp wireTokens_plain m (List.mem_filter.mp kept).1
  simpa [and_assoc] using plain

theorem lists_formatAllowHeader {methods : Finset HttpMethod}
    (mask : ∀ m, allowed.contains m = true ↔ m ∈ methods) (proper : .count_ ∉ methods) :
    Lists (formatAllowHeader allowed) methods := by
  have tokens := listed_formatAllowHeader allowed
  have member (m : HttpMethod) : m ∈ allMethods.filter allowed.contains ↔ m ∈ methods := by
    rw [List.mem_filter, mem_allMethods_iff, mask]
    exact ⟨And.right, fun listed => ⟨fun same => proper (same ▸ listed), listed⟩⟩
  have distinct : ((allMethods.filter allowed.contains).map HttpMethod.wireToken).Nodup :=
    nodup_wireTokens.sublist (List.filter_sublist.map _)
  refine ⟨?_, fun m allowed_ => ?_, fun token listed => ?_, fun empty => ?_⟩
  · rw [tokens]
    rfl
  · rw [tokens]
    exact List.count_eq_one_of_mem distinct (List.mem_map_of_mem ((member m).mpr allowed_))
  · rw [tokens] at listed
    obtain ⟨m, kept, rfl⟩ := List.mem_map.mp listed
    exact ⟨m, (member m).mp kept, rfl⟩
  · rw [empty] at tokens
    have none_ := List.map_eq_nil_iff.mp tokens.symm
    refine Finset.eq_empty_of_forall_notMem fun m allowed_ => ?_
    have kept := (member m).mpr allowed_
    rw [none_] at kept
    exact List.not_mem_nil kept

/-- The mask holds these methods, and a cache that counts as valid holds the text
    of the mask it was filled from. -/
structure Agrees (r : HttpResource) (methods : Finset HttpMethod) : Prop where
  mask : ∀ m, r.isAllowed m = true ↔ m ∈ methods
  proper : .count_ ∉ methods
  current : r.cachedAllowValid = true →
    r.cachedAllowHeader = formatAllowHeaderLoop r.cachedAllowMask

theorem contains_setAll_iff (m : HttpMethod) :
    MethodSet.setAll.contains m = true ↔ m ∈ allMethods.toFinset := by
  rw [MethodSet.contains_setAll, List.mem_toFinset, mem_allMethods_iff]

namespace Agrees
variable {r b : HttpResource} {methods : Finset HttpMethod}

theorem all (r : HttpResource) (masked : r.methodsAllowed = MethodSet.setAll)
    (current : r.cachedAllowValid = true →
      r.cachedAllowHeader = formatAllowHeaderLoop r.cachedAllowMask) :
    Agrees r allMethods.toFinset where
  mask m := by rw [isAllowed, masked, contains_setAll_iff]
  proper := by simp [mem_allMethods_iff]
  current := current

theorem setAllowing (agrees : Agrees r methods) (method : HttpMethod) (allow : Bool) :
    Agrees (r.setAllowing method allow) (allowing methods method allow) := by
  have mask := agrees.mask
  unfold isAllowed at mask
  unfold HttpResource.setAllowing allowing
  split
  · exact agrees
  · rename_i settable
    have proper := agrees.proper
    split
    · refine ⟨fun m => ?_, ?_, agrees.current⟩
      · change (r.methodsAllowed.set method).contains m = true ↔ _
        rw [MethodSet.contains_set, Bool.or_eq_true, mask, decide_eq_true_eq, Finset.mem_insert,
          or_comm, @eq_comm _ method m]
      · simp [proper, Ne.symm settable]
    · refine ⟨fun m => ?_, ?_, agrees.current⟩
      · change (r.methodsAllowed.clear method).contains m = true ↔ _
        rw [MethodSet.contains_clear, Bool.and_eq_true, mask, Bool.not_eq_true',
          decide_eq_false_iff_not, Finset.mem_erase, and_comm, @eq_comm _ method m]
      · simp [proper]

theorem allowAll (agrees : Agrees r methods) : Agrees r.allowAll allMethods.toFinset := by
  unfold HttpResource.allowAll
  exact all _ rfl agrees.current

theorem disallowAll (agrees : Agrees r methods) : Agrees r.disallowAll ∅ where
  mask m := by simp [isAllowed, HttpResource.disallowAll]
  proper := Finset.notMem_empty _
  current := agrees.current

theorem uncached (agrees : Agrees b methods) (same : r.methodsAllowed = b.methodsAllowed)
    (cleared : r.cachedAllowValid = false) : Agrees r methods where
  mask m := by rw [isAllowed, same, ← isAllowed, agrees.mask]
  proper := agrees.proper
  current valid := absurd valid (by simp [cleared])

theorem movedFrom (agrees : Agrees b methods) : Agrees b.movedFrom methods :=
  ⟨agrees.mask, agrees.proper, agrees.current⟩

theorem ensureTable (agrees : Agrees r methods) (fresh : Nat) : Agrees (r.ensureTable fresh) methods :=
  ⟨agrees.mask, agrees.proper, agrees.current⟩

theorem fillAllowHeader (agrees : Agrees r methods) : Agrees r.fillAllowHeader methods := by
  unfold HttpResource.fillAllowHeader
  split
  · exact ⟨agrees.mask, agrees.proper, fun _ => rfl⟩
  · exact agrees

theorem getAllowHeader_fst (agrees : Agrees r methods) :
    r.getAllowHeader.1 = formatAllowHeaderLoop r.methodsAllowed := by
  unfold HttpResource.getAllowHeader
  split
  · rename_i warm
    rw [agrees.current warm.1, warm.2]
  · rename_i cold
    have stale : r.cachedAllowValid = false ∨ r.cachedAllowMask ≠ r.methodsAllowed := by
      cases valid : r.cachedAllowValid with
      | false => exact Or.inl rfl
      | true => exact Or.inr fun same => cold ⟨valid, same⟩
    rw [HttpResource.fillAllowHeader, if_pos stale]

theorem getAllowHeader_snd (agrees : Agrees r methods) : Agrees r.getAllowHeader.2 methods := by
  unfold HttpResource.getAllowHeader
  split
  · exact agrees
  · exact agrees.fillAllowHeader

end Agrees

def Tracks (s : Objects HttpResource) (a : Objects (Finset HttpMethod)) : Prop :=
  ∀ i, Option.Rel Agrees (s i) (a i)

namespace Tracks
variable {s : Objects HttpResource} {a : Objects (Finset HttpMethod)}

theorem update (tracks : Tracks s a) (target : Nat) {r : Option HttpResource}
    {methods : Option (Finset HttpMethod)} (agrees : Option.Rel Agrees r methods) :
    Tracks (Function.update s target r) (Function.update a target methods) := by
  intro i
  by_cases here : i = target
  · subst here
    rwa [Function.update_self, Function.update_self]
  · rw [Function.update_of_ne here, Function.update_of_ne here]
    exact tracks i

theorem found (tracks : Tracks s a) (i : Nat) :
    (s i = none ∧ a i = none) ∨
      ∃ r methods, s i = some r ∧ a i = some methods ∧ Agrees r methods := by
  have here := tracks i
  revert here
  cases s i with
  | none =>
    cases a i with
    | none => exact fun _ => Or.inl ⟨rfl, rfl⟩
    | some methods =>
      intro here
      cases here
  | some r =>
    cases a i with
    | none =>
      intro here
      cases here
    | some methods =>
      rintro (agrees | _)
      exact Or.inr ⟨r, methods, rfl, rfl, agrees⟩

theorem put (tracks : Tracks s a) (target : Nat) {r : HttpResource} {methods : Finset HttpMethod}
    (agrees : Agrees r methods) : Tracks (s.put target r) (a.put target methods) :=
  tracks.update target (.some agrees)

variable {f : HttpResource → HttpResource}

theorem change (tracks : Tracks s a) (target : Nat) {g : Finset HttpMethod → Finset HttpMethod}
    (keeps : ∀ r methods, Agrees r methods → Agrees (f r) (g methods)) :
    Tracks (s.change target f) (a.change target g) := by
  refine tracks.update target ?_
  rcases found tracks target with ⟨gone, dead⟩ | ⟨r, methods, alive, allowed, agrees⟩
  · rw [gone, dead]
    exact .none
  · rw [alive, allowed]
    exact .some (keeps r methods agrees)

theorem changeSame (tracks : Tracks s a) (target : Nat)
    (keeps : ∀ r methods, Agrees r methods → Agrees (f r) methods) :
    Tracks (s.change target f) a := by
  have changed := tracks.change target (g := id) keeps
  rwa [change_eq_self (congrFun Option.map_id (a target))] at changed

theorem put_movedFrom (tracks : Tracks s a) {source : Nat} {b : HttpResource}
    {methods : Finset HttpMethod} (allowed : a source = some methods) (agrees : Agrees b methods) :
    Tracks (s.put source b.movedFrom) a := by
  have moved := tracks.put source agrees.movedFrom
  rwa [put_eq_self allowed] at moved

/-- A step that reads the object `source`, and does nothing where there is none. -/
theorem ofSource (tracks : Tracks s a) (source : Nat) {next : HttpResource → Objects HttpResource}
    {spec : Finset HttpMethod → Objects (Finset HttpMethod)}
    (keeps : ∀ b methods, a source = some methods → Agrees b methods → Tracks (next b) (spec methods)) :
    Tracks ((s source).elim s next) ((a source).elim a spec) := by
  rcases tracks.found source with ⟨gone, dead⟩ | ⟨b, methods, alive, allowed, agrees⟩
  · rw [gone, dead]
    exact tracks
  · rw [alive, allowed]
    exact keeps b methods allowed agrees

theorem assignSelf (tracks : Tracks s a) (target : Nat) :
    Tracks s ((a target).elim a fun methods => a.change target fun _ => methods) := by
  cases allowed : a target with
  | none => exact tracks
  | some methods =>
    rw [Option.elim_some, change_eq_self (by rw [allowed]; rfl)]
    exact tracks

theorem copyAssign (tracks : Tracks s a) (target source : Nat) :
    Tracks (stepResources s (.copyAssign target source))
      (stepAllowed a (.copyAssign target source)) := by
  rw [stepResources, stepAllowed]
  by_cases self : target = source
  · rw [if_pos self, ← self]
    exact tracks.assignSelf target
  · rw [if_neg self]
    exact tracks.ofSource source fun _ _ _ agrees =>
      tracks.change target fun r _ _ => agrees.uncached rfl rfl

theorem moveAssign (tracks : Tracks s a) (target source : Nat) :
    Tracks (stepResources s (.moveAssign target source))
      (stepAllowed a (.moveAssign target source)) := by
  rw [stepResources, stepAllowed]
  by_cases self : target = source
  · rw [if_pos self, ← self]
    exact tracks.assignSelf target
  · rw [if_neg self]
    rcases tracks.found target with ⟨gone, dead⟩ | ⟨r, old, there, before, -⟩
    · have unchanged (methods : Finset HttpMethod) : a.change target (fun _ => methods) = a :=
        change_eq_self (by rw [dead]; rfl)
      simp only [gone, unchanged, Option.elim_none]
      cases a source with
      | none => exact tracks
      | some methods => exact tracks
    · have replaced (methods : Finset HttpMethod) :
          a.change target (fun _ => methods) = a.put target methods := by
        rw [Objects.change, before]
        rfl
      rw [there]
      refine tracks.ofSource source fun b methods allowed agrees => ?_
      rw [replaced]
      exact (tracks.put_movedFrom allowed agrees).put target (agrees.uncached rfl rfl)

theorem step (tracks : Tracks s a) (call : ResourceCall) :
    Tracks (stepResources s call) (stepAllowed a call) := by
  cases call with
  | construct target => exact tracks.put target (Agrees.all {} rfl fun valid => absurd valid Bool.false_ne_true)
  | destroy target => exact tracks.update target .none
  | setAllowing target method allow =>
    exact tracks.change target fun _ _ agrees => agrees.setAllowing method allow
  | allowAll target => exact tracks.change target fun _ _ agrees => agrees.allowAll
  | disallowAll target => exact tracks.change target fun _ _ agrees => agrees.disallowAll
  | ensureTable target fresh =>
    exact tracks.changeSame target fun _ _ agrees => agrees.ensureTable fresh
  | copyConstruct target source =>
    exact tracks.ofSource source fun _ _ _ agrees => tracks.put target (agrees.uncached rfl rfl)
  | moveConstruct target source =>
    exact tracks.ofSource source fun _ _ allowed agrees =>
      (tracks.put_movedFrom allowed agrees).put target (agrees.uncached rfl rfl)
  | copyAssign target source => exact tracks.copyAssign target source
  | moveAssign target source => exact tracks.moveAssign target source
  | getAllowHeader target =>
    exact tracks.changeSame target fun _ _ agrees => agrees.getAllowHeader_snd

end Tracks

theorem tracks_after (calls : List ResourceCall) :
    Tracks (resourcesAfter calls) (allowedAfter calls) := by
  have run (s : Objects HttpResource) (a : Objects (Finset HttpMethod)) (tracks : Tracks s a) :
      Tracks (calls.foldl stepResources s) (calls.foldl stepAllowed a) := by
    induction calls generalizing s a with
    | nil => exact tracks
    | cons call calls ih => exact ih _ _ (tracks.step call)
  exact run none_ none_ fun _ => .none

/-- After any calls on any objects, the header of an object is the text of its
    mask, and it lists the methods the calls have allowed there. -/
theorem allow_header_is_never_stale (calls : List ResourceCall) (target : Nat) (r : HttpResource)
    (alive : resourcesAfter calls target = some r) :
    r.getAllowHeader.1 = formatAllowHeaderLoop r.methodsAllowed ∧
      ∃ methods, allowedAfter calls target = some methods ∧
        (∀ m, r.isAllowed m = true ↔ m ∈ methods) ∧ Lists r.getAllowHeader.1 methods := by
  rcases (tracks_after calls).found target with ⟨gone, -⟩ | ⟨r', methods, same, allowed, agrees⟩
  · rw [gone] at alive
    cases alive
  · rw [same] at alive
    cases alive
    have text := agrees.getAllowHeader_fst
    refine ⟨text, methods, allowed, agrees.mask, ?_⟩
    rw [text, formatAllowHeaderLoop_eq]
    exact lists_formatAllowHeader agrees.mask agrees.proper

def movedResourceCalls : List ResourceCall :=
  [.construct 0, .disallowAll 0, .setAllowing 0 .post true, .getAllowHeader 0,
    .setAllowing 0 .head true, .moveConstruct 1 0]

theorem moved_resource_header_is_current :
    ∃ r, resourcesAfter movedResourceCalls 0 = some r ∧ r.cachedAllowHeader = "POST".toList ∧
      r.getAllowHeader.1 = "HEAD, POST".toList := by
  refine ⟨_, rfl, rfl, ?_⟩
  exact (allow_header_is_never_stale movedResourceCalls 0 _ rfl).1.trans rfl

end HttpServer
