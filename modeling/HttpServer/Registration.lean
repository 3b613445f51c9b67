import HttpServer.Lib.Run
import HttpServer.RouteTable

/-!
The public registration calls of a webserver and the lookups it serves, one at
a time. A call first changes the registry, which is the route table and the
lambda shims its entries point to, and clears the cache only when it succeeds.
The main result is that the cache cannot be told from its absence.
-/
namespace HttpServer
open Effect LruCache Run

structure RouteConfig where
  singleResource : Bool
  regexChecking : Bool
  deriving DecidableEq, Repr

/-- `lambda_resource`: the allow mask doubles as the record of filled slots. -/
structure LambdaResource where
  methodsAllowed : MethodSet
  slots : HttpMethod → Option Nat

namespace LambdaResource

def fresh : LambdaResource := ⟨.noMethods, fun _ => none⟩

def hasSlot (shim : LambdaResource) (m : HttpMethod) : Bool := shim.methodsAllowed.contains m

def setSlot (shim : LambdaResource) (m : HttpMethod) (h : Nat) : LambdaResource :=
  ⟨shim.methodsAllowed.set m, Function.update shim.slots m (some h)⟩

end LambdaResource

/-- Shims are named by their position in `shims`; a shim no entry points to any
    more stays there and is never looked at again. -/
structure Registry where
  table : RouteTable
  shims : List LambdaResource

def Registry.empty : Registry := ⟨RouteTable.empty, []⟩

abbrev RegistryM := EStateM RegistrationError Registry

def onTable (x : TableM Unit) : RegistryM Unit := fun r =>
  match x r.table with
  | .ok a t => .ok a { r with table := t }
  | .error e t => .error e { r with table := t }

def check {α : Type} : Except RegistrationError α → RegistryM α
  | .ok a => pure a
  | .error e => throw e

def validateRegisterInputs (cfg : RouteConfig) (resource : Str) (res : Option Nat)
    (family : Bool) : Except RegistrationError Nat :=
  match res with
  | none => .error .nullResource
  | some res =>
    if cfg.singleResource && ((resource ≠ [] && resource ≠ ['/']) || !family) then
      .error .singleResourceRegister
    else if '\x00' ∈ resource then .error .embeddedNullBytes
    else .ok res

def registerImpl (rx : RegexEngine) (cfg : RouteConfig) (resource : Str) (res : Option Nat)
    (family : Bool) : RegistryM Unit := do
  let res ← check (validateRegisterInputs cfg resource res family)
  let idx ← check (HttpEndpoint.make rx resource family true cfg.regexChecking)
  onTable (registerV2Route rx idx res family)

def unregisterImpl (rx : RegexEngine) (cfg : RouteConfig) (resource : Str) (family : Bool) :
    RegistryM Unit := do
  let he ← check (HttpEndpoint.make rx resource family true cfg.regexChecking)
  let key := he.urlComplete
  if family then onTable (removeParamPrefixLocked key true)
  else if he.urlPars ≠ [] then onTable (removeParamPrefixLocked key false)
  else onTable (eraseExactAndRegexLocked key)

def unregisterResource (rx : RegexEngine) (cfg : RouteConfig) (resource : Str) :
    RegistryM Unit := do
  let he ← check (HttpEndpoint.make rx resource false true cfg.regexChecking)
  let key := he.urlComplete
  onTable do
    eraseExactAndRegexLocked key
    removeParamPrefixLocked key false
    removeParamPrefixLocked key true

def validateOnMethodsInputs (cfg : RouteConfig) (methods : MethodSet) (path : Str)
    (handler : Option Nat) : Except RegistrationError Nat :=
  if methods.isEmpty then .error .noMethodBit
  else
    match handler with
    | none => .error .emptyHandler
    | some handler =>
      if cfg.singleResource && path ≠ [] && path ≠ ['/'] then .error .singleResourceRoute
      else if '\x00' ∈ path then .error .embeddedNullBytes
      else if path.length > 8192 then .error .pathTooLong
      else .ok handler

def requestedMethods (methods : MethodSet) : List HttpMethod :=
  allMethods.filter fun m => methods.contains m

/-- The shim to fill and whether it is new. A new shim starts with every method
    disallowed. -/
def prepareOrCreateLambdaShim (rx : RegexEngine) (idx : HttpEndpoint) (methods : MethodSet) :
    RegistryM (Nat × Bool) := do
  let r ← get
  match r.table.findV2EntryByPath rx idx with
  | none =>
    modify fun r => { r with shims := r.shims ++ [LambdaResource.fresh] }
    pure (r.shims.length, true)
  | some existing =>
    match existing.handler with
    | .resource _ => throw .nonLambdaResource
    | .lambda id =>
      let shim := r.shims.getD id LambdaResource.fresh
      if (requestedMethods methods).any shim.hasSlot then throw .slotTaken
      else pure (id, false)

def commitHandlersToShim (id : Nat) (methods : MethodSet) (handler : Nat) : RegistryM Unit :=
  modify fun r =>
    { r with
      shims := r.shims.modify id fun shim =>
        (requestedMethods methods).foldl (fun shim m => shim.setSlot m handler) shim }

def onMethods (rx : RegexEngine) (cfg : RouteConfig) (methods : MethodSet) (path : Str)
    (handler : Option Nat) : RegistryM Unit := do
  let handler ← check (validateOnMethodsInputs cfg methods path handler)
  let idx ← check (HttpEndpoint.make rx path false true cfg.regexChecking)
  let (id, fresh) ← prepareOrCreateLambdaShim rx idx methods
  commitHandlersToShim id methods handler
  onTable (upsertV2TableEntryLocked rx idx methods (.lambda id) fresh)

/-- The seven `on_*` forwarders, named by the method they pass on. -/
inductive Forwarder where
  | onGet | onPost | onPut | onDelete | onPatch | onOptions | onHead
  deriving DecidableEq, Repr

def Forwarder.method : Forwarder → HttpMethod
  | .onGet => .get
  | .onPost => .post
  | .onPut => .put
  | .onDelete => .del
  | .onPatch => .patch
  | .onOptions => .options
  | .onHead => .head

inductive RouteCall where
  | registerPath (path : Str) (res : Option Nat)
  | registerPrefix (path : Str) (res : Option Nat)
  | on (forwarder : Forwarder) (path : Str) (handler : Option Nat)
  | routeMethod (m : HttpMethod) (path : Str) (handler : Option Nat)
  | routeSet (methods : MethodSet) (path : Str) (handler : Option Nat)
  | unregisterPath (path : Str)
  | unregisterPrefix (path : Str)
  | unregisterResource (path : Str)

def RouteCall.mutate (rx : RegexEngine) (cfg : RouteConfig) : RouteCall → RegistryM Unit
  | .registerPath path res => registerImpl rx cfg path res false
  | .registerPrefix path res => registerImpl rx cfg path res true
  | .on forwarder path handler =>
    onMethods rx cfg (MethodSet.noMethods.set forwarder.method) path handler
  | .routeMethod m path handler => do
    if m = .count_ then throw .sentinelMethod
    onMethods rx cfg (MethodSet.noMethods.set m) path handler
  | .routeSet methods path handler => onMethods rx cfg methods path handler
  | .unregisterPath path => unregisterImpl rx cfg path false
  | .unregisterPrefix path => unregisterImpl rx cfg path true
  | .unregisterResource path => HttpServer.unregisterResource rx cfg path

def RouteCall.isRegistration : RouteCall → Bool
  | .unregisterPath _ | .unregisterPrefix _ | .unregisterResource _ => false
  | _ => true

def Registry.Succeeds (rx : RegexEngine) (cfg : RouteConfig) (r : Registry) (c : RouteCall) : Prop :=
  outcome (c.mutate rx cfg) r = .ok ()

instance Registry.decidableSucceeds (rx : RegexEngine) (cfg : RouteConfig) (r : Registry)
    (c : RouteCall) : Decidable (r.Succeeds rx cfg c) :=
  inferInstanceAs (Decidable (_ = _))

def SameTable (r r' : Registry) : Prop := r.table = r'.table

instance : Std.Refl SameTable := ⟨fun _ => rfl⟩
instance : IsTrans Registry SameTable := ⟨fun _ _ _ h h' => Eq.trans h h'⟩

theorem failsClean_onTable {excused : RegistrationError → Prop} {x : TableM Unit}
    (clean : FailsClean Eq excused x) : FailsClean SameTable excused (onTable x) := by
  intro r e failed
  have inner := clean r.table e
  unfold outcome onTable at failed
  unfold outcome after at inner
  unfold after onTable SameTable
  cases run : x r.table with
  | ok a t => simp [run] at failed
  | error e' t =>
    simp only [run, Except.error.injEq] at failed inner ⊢
    exact inner failed

theorem steps_check {α : Type} (x : Except RegistrationError α) : Steps SameTable (check x) := by
  cases x with
  | ok a => exact steps_pure a
  | error e => exact steps_throw e

variable (rx : RegexEngine) (cfg : RouteConfig) (resource : Str)

theorem steps_prepareOrCreateLambdaShim (idx : HttpEndpoint) (methods : MethodSet) :
    Steps SameTable (prepareOrCreateLambdaShim rx idx methods) := by
  refine steps_bind steps_get fun r => ?_
  split
  · exact steps_bind (fun _ => rfl) fun _ => steps_pure _
  · split
    · exact steps_throw _
    · dsimp only
      split
      · exact steps_throw _
      · exact steps_pure _

theorem failsClean_registerImpl (res : Option Nat) (family : Bool) :
    FailsClean SameTable (·.onRegex) (registerImpl rx cfg resource res family) := by
  refine failsClean_bind (steps_check _) fun res => ?_
  refine failsClean_bind (steps_check _) fun idx => ?_
  exact failsClean_onTable (failsClean_registerV2Route rx idx res family)

theorem failsClean_onMethods (methods : MethodSet) (path : Str) (handler : Option Nat) :
    FailsClean SameTable (·.onRegex) (onMethods rx cfg methods path handler) := by
  refine failsClean_bind (steps_check _) fun handler => ?_
  refine failsClean_bind (steps_check _) fun idx => ?_
  refine failsClean_bind (steps_prepareOrCreateLambdaShim rx idx methods) fun shim => ?_
  refine failsClean_bind (show Steps SameTable _ from fun _ => rfl) fun _ => ?_
  exact failsClean_onTable (failsClean_upsertV2TableEntryLocked rx idx methods _ _)

theorem failsClean_total {x : TableM Unit} (returns : Returns x)
    (excused : RegistrationError → Prop) : FailsClean SameTable excused (onTable x) := by
  refine failsClean_onTable fun t e failed => ?_
  obtain ⟨a, done⟩ := returns t
  rw [done] at failed
  cases failed

theorem failsClean_unregister (family : Bool) (excused : RegistrationError → Prop) :
    FailsClean SameTable excused (unregisterImpl rx cfg resource family) := by
  refine failsClean_bind (steps_check _) fun he => ?_
  dsimp only
  split
  · exact failsClean_total (returns_modify _) excused
  · split
    · exact failsClean_total (returns_modify _) excused
    · exact failsClean_total (returns_modify _) excused

theorem failsClean_unregisterResource (excused : RegistrationError → Prop) :
    FailsClean SameTable excused (unregisterResource rx cfg resource) := by
  refine failsClean_bind (steps_check _) fun he => ?_
  exact failsClean_total (returns_bind (returns_modify _) fun _ => returns_bind (returns_modify _)
    fun _ => returns_modify _) excused

theorem failsClean_mutate (c : RouteCall) :
    FailsClean SameTable (fun e => (c.isRegistration && e.onRegex) = true) (c.mutate rx cfg) := by
  cases c with
  | registerPath path res => exact failsClean_registerImpl rx cfg path res false
  | registerPrefix path res => exact failsClean_registerImpl rx cfg path res true
  | on forwarder path handler => exact failsClean_onMethods rx cfg _ path handler
  | routeMethod m path handler =>
    dsimp only [RouteCall.mutate, RouteCall.isRegistration]
    split
    · exact failsClean_bind (steps_throw _) fun _ => failsClean_onMethods rx cfg _ path handler
    · exact failsClean_onMethods rx cfg _ path handler
  | routeSet methods path handler => exact failsClean_onMethods rx cfg methods path handler
  | unregisterPath path => exact failsClean_unregister rx cfg path false _
  | unregisterPrefix path => exact failsClean_unregister rx cfg path true _
  | unregisterResource path => exact failsClean_unregisterResource rx cfg path _

structure Server where
  registry : Registry
  cache : RouteCache

inductive RouteOp where
  | call (c : RouteCall)
  | lookup (method : HttpMethod) (path : Str)

namespace Server

def fresh (capacity : Nat) (positive : 0 < capacity) : Server :=
  ⟨Registry.empty, Lru.empty capacity positive⟩

/-- `invalidate_route_cache` runs behind the table mutation, unless that threw. -/
def call (rx : RegexEngine) (cfg : RouteConfig) (s : Server) (c : RouteCall) : Server :=
  match outcome (c.mutate rx cfg) s.registry with
  | .ok _ => ⟨after (c.mutate rx cfg) s.registry, s.cache.clear⟩
  | .error _ => ⟨after (c.mutate rx cfg) s.registry, s.cache⟩

theorem registry_call {rx : RegexEngine} {cfg : RouteConfig} (s : Server) (c : RouteCall) :
    (s.call rx cfg c).registry = after (c.mutate rx cfg) s.registry := by
  unfold call
  split
  · rfl
  · rfl

def step (rx : RegexEngine) (cfg : RouteConfig) (s : Server) : RouteOp → Server
  | .call c => s.call rx cfg c
  | .lookup method path =>
    { s with cache := (s.registry.table.lookupV2 rx s.cache method path).1 }

def failsOnRegex (rx : RegexEngine) (cfg : RouteConfig) (s : Server) (c : RouteCall) : Bool :=
  c.isRegistration &&
    match outcome (c.mutate rx cfg) s.registry with
    | .ok _ => false
    | .error e => e.onRegex

def RegexValid (rx : RegexEngine) (cfg : RouteConfig) (s : Server) : RouteOp → Prop
  | .call c => s.failsOnRegex rx cfg c = false
  | .lookup _ _ => True

instance (rx : RegexEngine) (cfg : RouteConfig) (s : Server) (op : RouteOp) :
    Decidable (s.RegexValid rx cfg op) :=
  match op with
  | .call c => inferInstanceAs (Decidable (s.failsOnRegex rx cfg c = false))
  | .lookup _ _ => inferInstanceAs (Decidable True)

def Coherent (rx : RegexEngine) (s : Server) : Prop :=
  s.cache.Holds (RouteTable.Fresh rx s.registry.table)

variable {rx : RegexEngine} {cfg : RouteConfig}

theorem call_coherent {s : Server} {c : RouteCall} (coherent : s.Coherent rx)
    (valid : s.failsOnRegex rx cfg c = false) : (s.call rx cfg c).Coherent rx := by
  unfold call
  cases result : outcome (c.mutate rx cfg) s.registry with
  | ok _ => exact Lru.holds_clear
  | error e =>
    have same : SameTable s.registry (after (c.mutate rx cfg) s.registry) := by
      rcases failsClean_mutate rx cfg c s.registry e result with excused | clean
      · simp [failsOnRegex, result, excused] at valid
      · exact clean
    unfold Coherent
    rw [← show s.registry.table = _ from same]
    exact coherent

theorem step_coherent (s : Server) (op : RouteOp) (coherent : s.Coherent rx)
    (valid : s.RegexValid rx cfg op) : (s.step rx cfg op).Coherent rx := by
  cases op with
  | call c => exact call_coherent coherent valid
  | lookup method path => exact RouteTable.lookupV2_fresh coherent method path

/-- However many calls and lookups came before, a lookup answers what the
    current table answers without a cache. -/
theorem lookup_agrees_with_cold_walk (rx : RegexEngine) (cfg : RouteConfig) (capacity : Nat)
    (positive : 0 < capacity) (ops : List RouteOp)
    (valid : Within (step rx cfg) (RegexValid rx cfg) (fresh capacity positive) ops)
    (method : HttpMethod) (path : Str) :
    let s := ops.foldl (step rx cfg) (fresh capacity positive)
    (s.registry.table.lookupV2 rx s.cache method path).2.map RouteTable.answer =
      s.registry.table.coldLookup rx path := by
  intro s
  have coherent : s.Coherent rx :=
    Run.invariant step_coherent (Lru.holds_empty capacity positive) valid
  exact RouteTable.lookupV2_answer coherent method path

def literalEngine : RegexEngine := ⟨fun _ => true, fun s re => s == re⟩

def itemPath : Str := "/a/\x7bid|[0-9]+\x7d".toList

def crowdedRun : List RouteOp :=
  [.call (.registerPrefix "/a".toList (some 1)),
   .lookup .get "/a/x".toList, .lookup .get "/a/y".toList,
   .call (.on .onGet "/a/{id}".toList (some 7)),
   .lookup .get "/a/x".toList,
   .call (.registerPrefix "/a".toList none),
   .call (.unregisterPrefix "/a".toList)]

def crowdedServer : Server :=
  crowdedRun.foldl (step literalEngine ⟨false, false⟩) (fresh 1 (by decide))

theorem lookup_agrees_in_crowded_run :
    (crowdedServer.registry.table.lookupV2 literalEngine crowdedServer.cache .get
        "/a/x".toList).2.map RouteTable.answer =
      crowdedServer.registry.table.coldLookup literalEngine "/a/x".toList :=
  lookup_agrees_with_cold_walk literalEngine ⟨false, false⟩ 1 (by decide) crowdedRun (by decide)
    .get "/a/x".toList

end Server
end HttpServer
