import HttpServer.TrieDescent
import HttpServer.RegistrationEffects

/-!
What any call can do to the table, whether it returns or throws: a chain of a
few kinds of change. The invariants of every registry a run can reach follow
from what each kind of change keeps.
-/
namespace HttpServer
open Effect

def KeyTier (rx : RegexEngine) (cfg : RouteConfig) (key : Str) (tier : RouteTier) : Prop :=
  ∃ path idx, HttpEndpoint.make rx path false true cfg.regexChecking = .ok idx ∧
    idx.urlComplete = key ∧ classifyRouteTier rx idx = .ok tier

variable {rx : RegexEngine} {cfg : RouteConfig} {t : RouteTable} {key : Str}

theorem KeyTier.unique {one two : RouteTier} (first : KeyTier rx cfg key one)
    (second : KeyTier rx cfg key two) : one = two := by
  obtain ⟨path, idx, parsed, complete, tier⟩ := first
  obtain ⟨path', idx', parsed', complete', tier'⟩ := second
  have same : normalizeUrlComplete path = normalizeUrlComplete path' := by
    rw [← (HttpEndpoint.make_ok parsed).1, ← (HttpEndpoint.make_ok parsed').1, complete, complete']
  rw [HttpEndpoint.make_congr same, parsed'] at parsed
  cases parsed
  rw [tier] at tier'
  cases tier'
  rfl

inductive TableChange (rx : RegexEngine) (cfg : RouteConfig) (shims : Nat) :
    RouteTable → RouteTable → Prop
  | none (t : RouteTable) : TableChange rx cfg shims t t
  | andThen {t u v : RouteTable} : TableChange rx cfg shims t u → TableChange rx cfg shims u v →
      TableChange rx cfg shims t v
  | insert (t : RouteTable) (segs : List Str) (entry : RouteEntry) (isPrefix : Bool)
      (valid : ∀ id, entry.handler = .lambda id → id < shims) :
      TableChange rx cfg shims t (t.insertTrie rx segs entry isPrefix)
  | remove (t : RouteTable) (segs : List Str) (isPrefix : Bool) :
      TableChange rx cfg shims t (t.removeTrie segs isPrefix)
  | emplace (t : RouteTable) {key : Str} (entry : RouteEntry)
      (tier : KeyTier rx cfg key .exact) :
      TableChange rx cfg shims t { t with exactRoutes := t.exactRoutes ++ [(key, entry)] }
  | push (t : RouteTable) {rr : RegexRoute}
      (tier : KeyTier rx cfg rr.urlComplete (.regex rr.compiledRe)) :
      TableChange rx cfg shims t { t with regexRoutes := t.regexRoutes ++ [rr] }
  | update (t : RouteTable) (key : Str) (methods : MethodSet) (shim : Handler) :
      TableChange rx cfg shims t (after (updateExistingV2Entry key methods shim) t)
  | erase (t : RouteTable) (key : Str) : TableChange rx cfg shims t (t.eraseKey key)

instance tableChangeRefl (rx : RegexEngine) (cfg : RouteConfig) (shims : Nat) :
    Std.Refl (TableChange rx cfg shims) := ⟨TableChange.none⟩

instance tableChangeTrans (rx : RegexEngine) (cfg : RouteConfig) (shims : Nat) :
    IsTrans RouteTable (TableChange rx cfg shims) := ⟨fun _ _ _ => TableChange.andThen⟩

section
variable {rx : RegexEngine} {cfg : RouteConfig} {n : Nat}

theorem change_of_same {x : TableM Unit} (same : Steps Eq x) :
    Steps (TableChange rx cfg n) x := by
  intro t
  rw [← same t]
  exact TableChange.none t

theorem change_insertParamPrefix (key : Str) {entry : RouteEntry} (isPrefix : Bool)
    (valid : ∀ id, entry.handler = .lambda id → id < n) :
    Steps (TableChange rx cfg n) (insertParamPrefix rx key entry isPrefix) := by
  intro t
  rw [after_insertParamPrefix]
  exact TableChange.insert t _ entry isPrefix valid

theorem change_emplaceExact {key : Str} (entry : RouteEntry) (tier : KeyTier rx cfg key .exact) :
    Steps (TableChange rx cfg n) (emplaceExact key entry) := by
  intro t
  change TableChange rx cfg n t (if _ then _ else _)
  split
  · exact TableChange.none t
  · exact TableChange.emplace t entry tier

variable {path : Str} {idx : HttpEndpoint}

theorem change_registerV2Route {family : Bool} (res : Nat)
    (parsed : HttpEndpoint.make rx path family true cfg.regexChecking = .ok idx) :
    Steps (TableChange rx cfg n) (registerV2Route rx idx res family) := by
  refine steps_bind (change_of_same (steps_rejectTerminusCollision _ _)) fun _ => ?_
  refine steps_bind (change_of_same (steps_rejectDuplicateV2Entry rx idx family)) fun _ => ?_
  have resource : ∀ id, (RouteEntry.mk .setAll (.resource res) family).handler = .lambda id →
      id < n := fun _ points => nomatch points
  unfold placeV2Route
  cases family with
  | true => exact change_insertParamPrefix _ true resource
  | false =>
    simp only [Bool.false_eq_true, if_false]
    cases tier : classifyRouteTier rx idx with
    | error e => exact steps_throw _
    | ok kind =>
      cases kind with
      | radix => exact change_insertParamPrefix _ false resource
      | regex re => exact fun t => TableChange.push t ⟨path, idx, parsed, rfl, tier⟩
      | exact => exact change_emplaceExact _ ⟨path, idx, parsed, rfl, tier⟩

theorem change_upsertV2TableEntryLocked {id : Nat} (methods : MethodSet) (fresh : Bool)
    (parsed : HttpEndpoint.make rx path false true cfg.regexChecking = .ok idx)
    (valid : idx.urlPars ≠ [] → id < n) :
    Steps (TableChange rx cfg n) (upsertV2TableEntryLocked rx idx methods (.lambda id) fresh) := by
  unfold upsertV2TableEntryLocked
  split
  · rename_i pars
    refine steps_bind (change_of_same (steps_rejectTerminusCollision _ _)) fun _ => ?_
    refine steps_bind steps_get fun t => ?_
    refine change_insertParamPrefix _ false fun id' points => ?_
    cases points
    exact valid pars
  · split
    · unfold insertFreshV2Entry
      cases tier : classifyRouteTier rx idx with
      | error e => exact steps_throw _
      | ok kind =>
        cases kind with
        | radix => exact steps_pure _
        | regex re => exact fun t => TableChange.push t ⟨path, idx, parsed, rfl, tier⟩
        | exact =>
          exact steps_bind (change_of_same (steps_rejectTerminusCollision _ _)) fun _ =>
            change_emplaceExact _ ⟨path, idx, parsed, rfl, tier⟩
    · exact fun t => TableChange.update t _ methods (.lambda id)

end

def RouteTable.Sane (shims : Nat) (t : RouteTable) : Prop :=
  t.paramAndPrefixRoutes.Tidy ∧ ∀ shape isPrefix entry id,
    t.paramAndPrefixRoutes.terminusAt shape isPrefix = some entry → entry.handler = .lambda id →
      id < shims

theorem RouteTable.Sane.mono {m n : Nat} (sane : t.Sane m) (more : m ≤ n) : t.Sane n :=
  ⟨sane.1, fun shape isPrefix entry id stored points =>
    Nat.lt_of_lt_of_le (sane.2 shape isPrefix entry id stored points) more⟩

theorem updateExistingV2Entry_trie (key : Str) (methods : MethodSet) (shim : Handler)
    (t : RouteTable) :
    (after (updateExistingV2Entry key methods shim) t).paramAndPrefixRoutes =
      t.paramAndPrefixRoutes := by
  change (ite _ _ _ : RouteTable).paramAndPrefixRoutes = _
  split
  · rfl
  · rfl

variable {shims : Nat} {u : RouteTable}

theorem TableChange.sane (change_ : TableChange rx cfg shims t u) (sane : t.Sane shims) :
    u.Sane shims := by
  induction change_ with
  | none => exact sane
  | andThen _ _ first second => exact second (first sane)
  | insert t segs entry isPrefix valid =>
    refine ⟨sane.1.insertSegments rx entry isPrefix segs,
      fun shape kind found id stored points => ?_⟩
    simp only [RouteTable.insertTrie] at stored
    rw [TrieNode.terminusAt_insertSegments] at stored
    split at stored
    · cases stored
      exact valid id points
    · exact sane.2 shape kind found id stored points
  | remove t segs isPrefix =>
    refine ⟨sane.1.removeSegments isPrefix segs, fun shape kind found id stored points => ?_⟩
    simp only [RouteTable.removeTrie] at stored
    rw [TrieNode.terminusAt_removeSegments sane.1] at stored
    split at stored
    · cases stored
    · exact sane.2 shape kind found id stored points
  | emplace => exact sane
  | push => exact sane
  | update t key methods shim =>
    rw [RouteTable.Sane, updateExistingV2Entry_trie]
    exact sane
  | erase => exact sane

def RouteTable.Tiered (rx : RegexEngine) (cfg : RouteConfig) (t : RouteTable) : Prop :=
  (∀ kv ∈ t.exactRoutes, KeyTier rx cfg kv.1 .exact) ∧
    ∀ rr ∈ t.regexRoutes, ∃ re, KeyTier rx cfg rr.urlComplete (.regex re)

theorem RouteTable.Tiered.exact_free (tiered : t.Tiered rx cfg) {tier : RouteTier}
    (own : KeyTier rx cfg key tier) (other : tier ≠ .exact) : ∀ kv ∈ t.exactRoutes, kv.1 ≠ key := by
  intro kv listed same
  exact other (own.unique (same ▸ tiered.1 kv listed))

theorem RouteTable.Tiered.regex_free (tiered : t.Tiered rx cfg) (own : KeyTier rx cfg key .exact) :
    ∀ rr ∈ t.regexRoutes, rr.urlComplete ≠ key := by
  intro rr listed same
  obtain ⟨re, stored⟩ := tiered.2 rr listed
  rw [same] at stored
  cases own.unique stored

theorem mem_updateFirst {hit : RegexRoute → Bool} {f : RegexRoute → RegexRoute}
    {rrs : List RegexRoute} {rr : RegexRoute} (member : rr ∈ updateFirst hit f rrs) :
    rr ∈ rrs ∨ ∃ old ∈ rrs, hit old = true ∧ rr = f old := by
  induction rrs with
  | nil => exact Or.inl member
  | cons first rest ih =>
    rw [updateFirst] at member
    split at member
    · rename_i found
      rcases List.mem_cons.mp member with rfl | later
      · exact Or.inr ⟨first, List.mem_cons_self, found, rfl⟩
      · exact Or.inl (List.mem_cons_of_mem _ later)
    · rcases List.mem_cons.mp member with rfl | later
      · exact Or.inl List.mem_cons_self
      · rcases ih later with old | ⟨old, listed, found, rfl⟩
        · exact Or.inl (List.mem_cons_of_mem _ old)
        · exact Or.inr ⟨old, List.mem_cons_of_mem _ listed, found, rfl⟩

theorem tiered_update (tiered : t.Tiered rx cfg) (key : Str) (methods : MethodSet) (shim : Handler) :
    (after (updateExistingV2Entry key methods shim) t).Tiered rx cfg := by
  change (ite _ _ _ : RouteTable).Tiered rx cfg
  split
  · refine ⟨fun kv member => ?_, tiered.2⟩
    obtain ⟨old, listed, rfl⟩ := List.mem_map.mp member
    have same : (if old.1 = key then (old.1, mergeInto methods shim old.2) else old).1 = old.1 := by
      split
      · rfl
      · rfl
    rw [same]
    exact tiered.1 old listed
  · refine ⟨tiered.1, fun rr member => ?_⟩
    rcases mem_updateFirst member with old | ⟨old, listed, -, rfl⟩
    · exact tiered.2 rr old
    · exact tiered.2 old listed

theorem TableChange.tiered (change_ : TableChange rx cfg shims t u) (tiered : t.Tiered rx cfg) :
    u.Tiered rx cfg := by
  induction change_ with
  | none => exact tiered
  | andThen _ _ first second => exact second (first tiered)
  | insert => exact tiered
  | remove => exact tiered
  | emplace t entry tier =>
    refine ⟨fun kv member => ?_, tiered.2⟩
    rcases List.mem_append.mp member with old | new
    · exact tiered.1 kv old
    · rw [List.mem_singleton.mp new]
      exact tier
  | @push t rr tier =>
    refine ⟨tiered.1, fun found member => ?_⟩
    rcases List.mem_append.mp member with old | new
    · exact tiered.2 found old
    · rw [List.mem_singleton.mp new]
      exact ⟨_, tier⟩
  | update t key methods shim => exact tiered_update tiered key methods shim
  | erase t key =>
    exact ⟨fun kv member => tiered.1 kv (List.mem_filter.mp member).1,
      fun rr member => tiered.2 rr (List.mem_filter.mp member).1⟩

structure Registry.Sane (rx : RegexEngine) (cfg : RouteConfig) (r : Registry) : Prop where
  table : r.table.Sane r.shims.length
  tiered : r.table.Tiered rx cfg

section
variable {rx : RegexEngine} {cfg : RouteConfig} {r : Registry}

theorem Registry.Sane.change {r' : Registry} (sane : r.Sane rx cfg)
    (more : r.shims.length ≤ r'.shims.length)
    (change_ : TableChange rx cfg r'.shims.length r.table r'.table) : r'.Sane rx cfg :=
  ⟨change_.sane (sane.table.mono more), change_.tiered sane.tiered⟩

theorem sane_onTable {x : TableM Unit} (steps : Steps (TableChange rx cfg r.shims.length) x)
    (sane : r.Sane rx cfg) : (after (onTable x) r).Sane rx cfg := by
  rw [after_onTable]
  exact sane.change (Nat.le_refl _) (steps r.table)

theorem sane_check_bind {α : Type} {x : Except RegistrationError α} {f : α → RegistryM Unit}
    (sane : r.Sane rx cfg) (rest : ∀ a, x = .ok a → (after (f a) r).Sane rx cfg) :
    (after (check x >>= f) r).Sane rx cfg := by
  cases x with
  | error e => exact sane
  | ok a => exact rest a rfl

variable {idx : HttpEndpoint}

theorem findV2EntryByPath_trie {t : RouteTable} {entry : RouteEntry} (pars : idx.urlPars ≠ [])
    (found : t.findV2EntryByPath rx idx = some entry) :
    ∃ shape, t.paramAndPrefixRoutes.terminusAt shape false = some entry := by
  unfold RouteTable.findV2EntryByPath at found
  dsimp only at found
  rw [if_pos pars] at found
  cases walk : t.paramAndPrefixRoutes.find rx idx.urlComplete with
  | none => simp [walk] at found
  | some m =>
    obtain ⟨shape, reached⟩ := TrieNode.findSegments_some walk
    cases kind : m.isPrefixMatch with
    | true => simp [walk, kind] at found
    | false =>
      have same : m.entry = entry := by simpa [walk, kind] using found
      have stored := reached.terminusAt
      rw [kind, same] at stored
      exact ⟨shape, stored⟩

theorem ShimChosen.sane {methods : MethodSet} {id : Nat} {fresh : Bool}
    {shims : List LambdaResource} (chosen : ShimChosen rx r idx methods id fresh shims)
    (sane : r.Sane rx cfg) :
    r.shims.length ≤ shims.length ∧ (idx.urlPars ≠ [] → id < shims.length) := by
  cases chosen with
  | new missing => simp
  | existing _ entry found lambda free =>
    refine ⟨Nat.le_refl _, fun pars => ?_⟩
    obtain ⟨shape, stored⟩ := findV2EntryByPath_trie pars found
    exact sane.table.2 shape false entry id stored lambda

theorem sane_onMethods (methods : MethodSet) (path : Str) (handler : Option Nat)
    (sane : r.Sane rx cfg) : (after (onMethods rx cfg methods path handler) r).Sane rx cfg := by
  refine sane_check_bind sane fun h _ => ?_
  refine sane_check_bind sane fun idx parsed => ?_
  rcases prepareOrCreateLambdaShim_cases rx idx methods r with
    ⟨id, fresh, shims, chosen, result, state⟩ | ⟨-, ⟨e, refused⟩, state⟩
  · rw [(bind_of_ok r result).2, state]
    obtain ⟨more, valid⟩ := chosen.sane sane
    have filled : Registry.Sane rx cfg
        ⟨r.table, shims.modify id (LambdaResource.fill methods h)⟩ :=
      sane.change (by rw [List.length_modify]; exact more) (TableChange.none r.table)
    refine sane_onTable (change_upsertV2TableEntryLocked methods fresh parsed fun pars => ?_) filled
    rw [List.length_modify]
    exact valid pars
  · rw [(bind_of_error r refused).2, state]
    exact sane

theorem sane_mutate (c : RouteCall) (sane : r.Sane rx cfg) :
    (after (c.mutate rx cfg) r).Sane rx cfg := by
  cases registers : c.registerArguments with
  | some arguments =>
    obtain ⟨path, res, family⟩ := arguments
    rw [RouteCall.mutate_register registers]
    refine sane_check_bind sane fun id _ => ?_
    exact sane_check_bind sane fun idx parsed =>
      sane_onTable (change_registerV2Route id parsed) sane
  | none =>
    cases routes : c.onArguments with
    | some arguments =>
      obtain ⟨methods, path, handler⟩ := arguments
      rcases RouteCall.mutate_on routes rx cfg with ⟨e, program, -⟩ | program
      · rw [program]
        exact sane
      · rw [program]
        exact sane_onMethods methods path handler sane
    | none =>
      have removed : ∀ key kind, Steps (TableChange rx cfg r.shims.length)
          (removeParamPrefixLocked key kind) :=
        fun key kind t => TableChange.remove t (tokenizeUrl key) kind
      have erased : ∀ key, Steps (TableChange rx cfg r.shims.length)
          (eraseExactAndRegexLocked key) :=
        fun key t => TableChange.erase t key
      cases c with
      | unregisterPath path =>
        refine sane_check_bind sane fun idx _ => ?_
        dsimp only
        split
        · exact sane_onTable (removed _ _) sane
        · split
          · exact sane_onTable (removed _ _) sane
          · exact sane_onTable (erased _) sane
      | unregisterPrefix path =>
        exact sane_check_bind sane fun idx _ => sane_onTable (removed _ _) sane
      | unregisterResource path =>
        exact sane_check_bind sane fun idx _ => sane_onTable
          (steps_bind (erased _) fun _ => steps_bind (removed _ _) fun _ => removed _ _) sane
      | registerPath path res => cases registers
      | registerPrefix path res => cases registers
      | on forwarder path handler => cases routes
      | routeMethod m path handler => cases routes
      | routeSet methods path handler => cases routes

theorem sane_empty : Registry.empty.Sane rx cfg := by
  refine ⟨⟨TrieNode.tidy_leaf rfl rfl, fun shape isPrefix entry id stored => ?_⟩, ?_⟩
  · have bare : Registry.empty.table.paramAndPrefixRoutes.terminusAt shape isPrefix = none :=
      TrieNode.terminusAt_bare TrieNode.next_empty (fun kind => by cases kind <;> rfl) shape
        isPrefix
    rw [bare] at stored
    cases stored
  · exact ⟨fun kv member => (nomatch member), fun rr member => (nomatch member)⟩

def Registry.run (rx : RegexEngine) (cfg : RouteConfig) (r : Registry) (calls : List RouteCall) :
    Registry :=
  calls.foldl (fun r c => after (c.mutate rx cfg) r) r

theorem sane_run (calls : List RouteCall) (sane : r.Sane rx cfg) :
    (r.run rx cfg calls).Sane rx cfg := by
  induction calls generalizing r with
  | nil => exact sane
  | cons c calls ih => exact ih (sane_mutate c sane)

end
end HttpServer
