import HttpServer.Dispatch
import HttpServer.SoleRoute

/-!
The WebSocket registry and the two public calls that change it. Both key it
with `standardize_url` alone, while an upgrade looks it up under the dispatch
path of the request, which always is a canonical path.
-/
namespace HttpServer
open Effect

inductive WsError where
  | featureUnavailable (feature buildFlag : Str)
  | nullHandler
  | alreadyRegistered
  deriving DecidableEq, Repr

def WsError.message : WsError → Str
  | .featureUnavailable feature buildFlag =>
    "feature '".toList ++ feature ++ "' unavailable: built without ".toList ++ buildFlag
  | .nullHandler => "The websocket_handler pointer cannot be null".toList
  | .alreadyRegistered => "A websocket_handler is already registered at this path".toList

structure WsRegistry where
  handlers : List (Str × Nat)
  deriving DecidableEq, Repr

namespace WsRegistry

def tryRegister (reg : WsRegistry) (urlKey : Str) (handler : Nat) : WsRegistry × Bool :=
  if (reg.handlers.lookup urlKey).isSome then (reg, false)
  else (⟨reg.handlers ++ [(urlKey, handler)]⟩, true)

def unregister (reg : WsRegistry) (urlKey : Str) : WsRegistry :=
  ⟨reg.handlers.filter fun kv => kv.1 ≠ urlKey⟩

def find (reg : WsRegistry) (url : Str) : Option Nat := reg.handlers.lookup url

end WsRegistry

abbrev WsM := EStateM WsError WsRegistry

def websocketUnavailable : WsError :=
  .featureUnavailable "websocket".toList "HAVE_WEBSOCKET".toList

def registerWsResource (haveWebsocket : Bool) (resource : Str) (handler : Option Nat) :
    WsM Unit := do
  if haveWebsocket then
    match handler with
    | none => throw .nullHandler
    | some handler => do
      let reg ← get
      let (reg, inserted) := reg.tryRegister (standardizeUrl resource) handler
      set reg
      if inserted then pure () else throw .alreadyRegistered
  else throw websocketUnavailable

def unregisterWsResource (haveWebsocket : Bool) (resource : Str) : WsM Unit :=
  if haveWebsocket then modify fun reg => reg.unregister (standardizeUrl resource)
  else throw websocketUnavailable

/-- The upgrade looks the registry up under the dispatch path and keeps the
    handler when libmicrohttpd takes the upgrade. -/
theorem upgradeHandler_eq_find (env : Env) (key url : Str) :
    upgradeHandler env key url =
      (WsRegistry.find ⟨env.wsHandlers⟩ url).filter
        fun _ => env.createsUpgrade && env.acceptsKey key := rfl

theorem head_destutter {R : Char → Char → Prop} [DecidableRel R] (first : Char) (rest : Str) :
    ∃ tail, (first :: rest).destutter R = first :: tail := by
  rw [List.destutter_cons']
  induction rest with
  | nil => exact ⟨[], rfl⟩
  | cons next rest ih =>
    by_cases kept : R first next
    · exact ⟨_, List.destutter'_cons_pos rest kept⟩
    · rw [List.destutter'_cons_neg rest kept]
      exact ih

theorem head_standardizeUrl (url : Str) : (standardizeUrl url).head? = url.head? := by
  cases url with
  | nil => rfl
  | cons first rest =>
    obtain ⟨tail, shape⟩ :=
      @head_destutter (fun a b => ¬(a = b ∧ a = '/')) inferInstance first rest
    unfold standardizeUrl
    rw [if_neg (by simp), shape]
    dsimp only
    split
    · rename_i long
      cases tail with
      | nil => simp at long
      | cons next tail => rfl
    · rfl

theorem ws_key_iff {path : Str} (noPlus : '+' ∉ path) (noPercent : '%' ∉ path)
    (noNul : '\x00' ∉ path) :
    standardizeUrl path = dispatchPath none (requestUrl path) ↔
      ∃ c : CanonicalPath, standardizeUrl path = c.text := by
  constructor
  · intro same
    exact ⟨_, same.trans (normalizePath_eq_text _)⟩
  · rintro ⟨c, canonical⟩
    have absolute : path.head? = some '/' := by
      rw [← head_standardizeUrl, canonical]
      rfl
    have url : requestUrl path = path := if_pos absolute
    rw [url, dispatchPath_none_of_clean noPlus noPercent noNul, canonical, c.normalizePath_text]

/-- A registered WebSocket path is found by its upgrades and removed under
    another spelling when its standardised text is a canonical path and the
    other spelling standardises to the same text. -/
theorem ws_path_reachable_iff (haveWebsocket : Bool) (reg : WsRegistry) (path spelling : Str)
    (handler : Nat) (noRoute : reg.handlers = []) (noPlus : '+' ∉ path) (noPercent : '%' ∉ path)
    (noNul : '\x00' ∉ path)
    (accepted : outcome (registerWsResource haveWebsocket path (some handler)) reg = .ok ()) :
    let registered := after (registerWsResource haveWebsocket path (some handler)) reg
    let removed := after (unregisterWsResource haveWebsocket spelling) registered
    (registered.find (dispatchPath none (requestUrl path)) = some handler ∧
        removed.find (dispatchPath none (requestUrl path)) = none) ↔
      (∃ c : CanonicalPath, standardizeUrl path = c.text) ∧
        standardizeUrl spelling = standardizeUrl path := by
  intro registered removed
  have enabled : haveWebsocket = true := by
    cases haveWebsocket with
    | true => rfl
    | false => cases accepted
  subst enabled
  have stored : registered = ⟨[(standardizeUrl path, handler)]⟩ := by
    have fresh : reg.tryRegister (standardizeUrl path) handler =
        (⟨[(standardizeUrl path, handler)]⟩, true) := by
      simp [WsRegistry.tryRegister, noRoute]
    change after (registerWsResource true path (some handler)) reg = _
    unfold registerWsResource
    rw [if_pos rfl]
    dsimp only
    rw [after_get_bind, fresh]
    rfl
  have erased : removed = registered.unregister (standardizeUrl spelling) := rfl
  rw [← ws_key_iff noPlus noPercent noNul, erased, stored]
  simp only [WsRegistry.find, WsRegistry.unregister, Assoc.lookup_filter_ne, Assoc.lookup_cons_if,
    List.lookup_nil]
  by_cases found : standardizeUrl path = dispatchPath none (requestUrl path)
  · by_cases spelt : standardizeUrl spelling = standardizeUrl path
    · simp [found, spelt]
    · have other : dispatchPath none (requestUrl path) ≠ standardizeUrl spelling := by
        rw [← found]
        exact Ne.symm spelt
      simp [found, other, Ne.symm other]
  · simp [found]

theorem slashed_ws_path_reachable :
    let registered := after (registerWsResource true "/a//b/".toList (some 3)) ⟨[]⟩
    let removed := after (unregisterWsResource true "/a/b".toList) registered
    registered.find (dispatchPath none (requestUrl "/a//b/".toList)) = some 3 ∧
      removed.find (dispatchPath none (requestUrl "/a//b/".toList)) = none :=
  (ws_path_reachable_iff true ⟨[]⟩ "/a//b/".toList "/a/b".toList 3 rfl (by decide) (by decide)
    (by decide) (by decide)).mpr
    ⟨⟨⟨["a".toList, "b".toList], by decide⟩, by decide⟩, by decide⟩

/-- Paths that no upgrade finds: no leading slash, a dot segment. And a spelling
    with a dot segment that removes nothing, though its requests and those of
    the registered path have one dispatch path. -/
theorem unnormalised_ws_paths_unreachable :
    (∀ path ∈ ["chat".toList, "/a/./b".toList],
      outcome (registerWsResource true path (some 3)) ⟨[]⟩ = .ok () ∧
        (after (registerWsResource true path (some 3)) ⟨[]⟩).find
          (dispatchPath none (requestUrl path)) = none) ∧
      dispatchPath none (requestUrl "/a/./b".toList) = dispatchPath none (requestUrl "/a/b".toList) ∧
      (after (unregisterWsResource true "/a/./b".toList)
          (after (registerWsResource true "/a/b".toList (some 3)) ⟨[]⟩)).find
        (dispatchPath none (requestUrl "/a/b".toList)) = some 3 := by
  decide

end HttpServer
