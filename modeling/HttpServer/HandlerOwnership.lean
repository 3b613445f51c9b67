import HttpServer.AtomicRegistration
import HttpServer.RoutePlaces

/-!
Who answers for a path. The owners are kept as the successful calls make them:
`register_path` gives a path to its resource, and an `on_*` or `route` call adds
its handler for the methods it names. The registry keeps the handlers in shims
that entries share a pointer to, so it agrees with the owners as long as no two
places share a shim and every call finds the entry of its own path.
-/
namespace HttpServer
open Effect Run

inductive Owner where
  | resource (id : Nat)
  | lambdas (slots : HttpMethod → Option Nat) (methods : MethodSet)

namespace Owner

def slots : Option Owner → HttpMethod → Option Nat
  | some (.lambdas slots _) => slots
  | _ => fun _ => none

def methods : Option Owner → MethodSet
  | some (.lambdas _ methods) => methods
  | _ => .noMethods

def extend (owner : Option Owner) (methods : MethodSet) (h : Nat) : Owner :=
  .lambdas (fun m => if m ∈ requestedMethods methods then some h else slots owner m)
    ((Owner.methods owner).union methods)

def Refuses (owner : Option Owner) (methods : MethodSet) : Prop :=
  (∃ id, owner = some (.resource id)) ∨ ∃ m ∈ requestedMethods methods, (slots owner m).isSome

end Owner

/-- Owners by the segments of the path, all parameters alike. -/
abbrev Owners := List (Option Str) → Option Owner

def Owners.record (owners : Owners) (c : RouteCall) : Owners :=
  match c.registerArguments, c.onArguments with
  | some (path, some res, _), _ =>
    Function.update owners (shapeOf (tokenizeUrl path)) (some (.resource res))
  | none, some (methods, path, some h) =>
    Function.update owners (shapeOf (tokenizeUrl path))
      (some (Owner.extend (owners (shapeOf (tokenizeUrl path))) methods h))
  | _, _ => owners

def RouteEntry.owner (shims : List LambdaResource) (entry : RouteEntry) : Owner :=
  match entry.handler with
  | .resource id => .resource id
  | .lambda id => .lambdas (shims.getD id LambdaResource.fresh).slots entry.methods

theorem RouteEntry.owner_congr {shims shims' : List LambdaResource} {entry : RouteEntry}
    (kept : ∀ id, entry.handler = .lambda id →
      shims'.getD id LambdaResource.fresh = shims.getD id LambdaResource.fresh) :
    entry.owner shims' = entry.owner shims := by
  unfold owner
  cases points : entry.handler with
  | resource id => rfl
  | lambda id => simp only [kept id points]

def Registry.ownerAt (r : Registry) (place : Place) : Option Owner :=
  (r.table.entryAt place).map (RouteEntry.owner r.shims)

def Registry.ownerOf (r : Registry) (path : Str) : Option Owner := r.ownerAt (placeOf path)

theorem slots_foldl_setSlot (ms : List HttpMethod) (shim : LambdaResource) (h : Nat)
    (n : HttpMethod) :
    (ms.foldl (fun shim m => shim.setSlot m h) shim).slots n =
      if n ∈ ms then some h else shim.slots n := by
  induction ms generalizing shim with
  | nil => simp
  | cons m ms ih =>
    rw [List.foldl_cons, ih]
    by_cases later : n ∈ ms
    · simp [later]
    · by_cases here : n = m
      · simp [here, LambdaResource.setSlot]
      · simp [later, here, LambdaResource.setSlot]

theorem slots_fill (methods : MethodSet) (h : Nat) (shim : LambdaResource) (n : HttpMethod) :
    (shim.fill methods h).slots n =
      if n ∈ requestedMethods methods then some h else shim.slots n :=
  slots_foldl_setSlot (requestedMethods methods) shim h n

def LambdaResource.Recorded (shim : LambdaResource) : Prop :=
  ∀ m, shim.hasSlot m = (shim.slots m).isSome

theorem recorded_fresh : LambdaResource.fresh.Recorded := by
  intro m
  cases m <;> rfl

theorem recorded_fill {shim : LambdaResource} (recorded : shim.Recorded) (methods : MethodSet)
    (h : Nat) : (shim.fill methods h).Recorded := by
  intro m
  rw [hasSlot_fill, slots_fill, recorded m]
  by_cases asked : m ∈ requestedMethods methods
  · simp [asked]
  · simp [asked]

structure Registry.Private (rx : RegexEngine) (cfg : RouteConfig) (r : Registry) : Prop where
  sane : r.Sane rx cfg
  exactOnly : ∀ shape, r.table.paramAndPrefixRoutes.terminusAt shape true = none
  bounded : ∀ place entry id, r.table.Holds place entry → entry.handler = .lambda id →
    id < r.shims.length
  unshared : ∀ place other entry found id, r.table.Holds place entry → r.table.Holds other found →
    entry.handler = .lambda id → found.handler = .lambda id → place = other
  recorded : ∀ shim ∈ r.shims, shim.Recorded

namespace Registry.Private
variable {rx : RegexEngine} {cfg : RouteConfig} {r r' : Registry}

theorem write (inv : r.Private rx cfg) (sane : r'.Sane rx cfg) {place : Place} {entry : RouteEntry}
    (writes : r.table.Writes place entry r'.table) (longer : r.shims.length ≤ r'.shims.length)
    (recorded : ∀ shim ∈ r'.shims, shim.Recorded)
    (inside : ∀ id, entry.handler = .lambda id → id < r'.shims.length)
    (sole : ∀ id other found, entry.handler = .lambda id → r.table.Holds other found →
      found.handler = .lambda id → other = place) : r'.Private rx cfg := by
  refine ⟨sane, fun shape => (writes.prefixes shape).trans (inv.exactOnly shape), ?_, ?_, recorded⟩
  · intro other found id holds points
    rcases writes.holds other found holds with ⟨-, same⟩ | old
    · exact inside id (same ▸ points)
    · exact Nat.lt_of_lt_of_le (inv.bounded other found id old points) longer
  · intro one two first second id holds holds' points points'
    rcases writes.holds one first holds with ⟨rfl, same⟩ | old
    · rcases writes.holds two second holds' with ⟨rfl, -⟩ | old'
      · rfl
      · exact (sole id two second (same ▸ points) old' points').symm
    · rcases writes.holds two second holds' with ⟨rfl, same⟩ | old'
      · exact sole id one first (same ▸ points') old points
      · exact inv.unshared one two first second id old old' points points'

theorem ownerAt_write {place : Place} {entry : RouteEntry}
    (writes : r.table.Writes place entry r'.table)
    (kept : ∀ other found id, other ≠ place → r.table.Holds other found →
      found.handler = .lambda id →
      r'.shims.getD id LambdaResource.fresh = r.shims.getD id LambdaResource.fresh)
    (other : Place) :
    r'.ownerAt other = if other = place then some (entry.owner r'.shims) else r.ownerAt other := by
  unfold ownerAt
  rw [writes.entryAt]
  by_cases here : other = place
  · rw [if_pos here, if_pos here]
    rfl
  · rw [if_neg here, if_neg here]
    cases found : r.table.entryAt other with
    | none => rfl
    | some old =>
      have stored := RouteTable.holds_of_entryAt found
      rw [Option.map_some, Option.map_some,
        RouteEntry.owner_congr fun id points => kept other old id here stored points]

theorem quiet (inv : r.Private rx cfg) (sane : r'.Sane rx cfg) (same : r.table.SameRoutes r'.table)
    (more : r.shims <+: r'.shims) (recorded : ∀ shim ∈ r'.shims, shim.Recorded) :
    r'.Private rx cfg ∧ ∀ place, r'.ownerAt place = r.ownerAt place := by
  refine ⟨⟨sane, fun shape => (same.prefixes shape).trans (inv.exactOnly shape), ?_, ?_, recorded⟩,
    ?_⟩
  · intro place entry id holds points
    exact Nat.lt_of_lt_of_le (inv.bounded place entry id (same.holds place entry holds) points)
      more.length_le
  · intro one two first second id holds holds'
    exact inv.unshared one two first second id (same.holds one first holds)
      (same.holds two second holds')
  · intro place
    unfold ownerAt
    rw [same.entryAt]
    cases found : r.table.entryAt place with
    | none => rfl
    | some entry =>
      have stored := RouteTable.holds_of_entryAt found
      rw [Option.map_some, Option.map_some, RouteEntry.owner_congr fun id points =>
        Assoc.getD_of_prefix more (inv.bounded place entry id stored points)]

end Registry.Private

section
variable {rx : RegexEngine} {cfg : RouteConfig} {r : Registry} {path : Str}
  {res handler : Option Nat} {id : Nat} {e : RegistrationError}

theorem registerImpl_owns (inv : r.Private rx cfg)
    (ok : outcome (registerImpl rx cfg path res false) r = .ok ()) :
    let r' := after (registerImpl rx cfg path res false) r
    r'.Private rx cfg ∧ ∃ id, res = some id ∧ ∀ place,
      r'.ownerAt place = if place = placeOf path then some (.resource id) else r.ownerAt place := by
  intro r'
  have sane : r'.Sane rx cfg := sane_mutate (.registerPath path res) inv.sane
  obtain ⟨id, idx, t, valid, parsed, placed, state⟩ := registerImpl_ok ok
  have final : r' = { r with table := t } := state
  have writes := placed.writes inv.sane.tiered parsed
  have given := (validateRegisterInputs_ok valid).1
  rw [final] at sane ⊢
  refine ⟨inv.write sane writes (Nat.le_refl _) inv.recorded (fun _ points => nomatch points)
    (fun _ _ _ points => nomatch points), id, given, fun place => ?_⟩
  exact @Registry.Private.ownerAt_write r { r with table := t } _ _ writes
    (fun _ _ _ _ _ _ => rfl) place

def Registry.Probes (rx : RegexEngine) (r : Registry) (path : Str) : Prop :=
  (tokenizeUrl path).any isWildcardSegment = true →
    r.table.paramAndPrefixRoutes.ReadsBack rx (tokenizeUrl path)

structure OwnShim (r : Registry) (path : Str) (methods : MethodSet) (id : Nat)
    (shims : List LambdaResource) : Prop where
  inside : id < shims.length
  front : r.shims <+: shims
  sole : ∀ other found, r.table.Holds other found → found.handler = .lambda id →
    other = placeOf path
  slots : (shims.getD id LambdaResource.fresh).slots = Owner.slots (r.ownerOf path)
  prior : priorMethods (r.table.entryAt (placeOf path)) = Owner.methods (r.ownerOf path)
  recorded : ∀ shim ∈ shims, shim.Recorded
  free : ¬ Owner.Refuses (r.ownerOf path) methods

theorem ownShim_new (inv : r.Private rx cfg) (methods : MethodSet)
    (absent : r.table.entryAt (placeOf path) = none) :
    OwnShim r path methods r.shims.length (r.shims ++ [LambdaResource.fresh]) := by
  have owner : r.ownerOf path = none := by
    rw [Registry.ownerOf, Registry.ownerAt, absent]
    rfl
  refine ⟨by simp, List.prefix_append _ _, fun other found holds points => ?_, ?_, ?_, ?_, ?_⟩
  · exact absurd (inv.bounded other found _ holds points) (Nat.lt_irrefl _)
  · simp [List.getD_eq_getElem?_getD, owner, Owner.slots, LambdaResource.fresh]
  · rw [absent, owner]
    rfl
  · intro shim listed
    rcases List.mem_append.mp listed with old | new
    · exact inv.recorded shim old
    · rw [List.mem_singleton.mp new]
      exact recorded_fresh
  · rw [owner]
    rintro (⟨id, resource⟩ | ⟨m, -, filled⟩)
    · cases resource
    · cases filled

variable {methods : MethodSet}

theorem ownShim_existing (inv : r.Private rx cfg) {entry : RouteEntry}
    (stored : r.table.entryAt (placeOf path) = some entry) (lambda : entry.handler = .lambda id)
    (free : (requestedMethods methods).any (r.shims.getD id LambdaResource.fresh).hasSlot = false) :
    OwnShim r path methods id r.shims := by
  have holds := RouteTable.holds_of_entryAt stored
  have inside := inv.bounded _ entry id holds lambda
  have owner : r.ownerOf path =
      some (.lambdas (r.shims.getD id LambdaResource.fresh).slots entry.methods) := by
    rw [Registry.ownerOf, Registry.ownerAt, stored, Option.map_some, RouteEntry.owner, lambda]
  refine ⟨inside, List.prefix_refl _, fun other found holds' points => ?_, ?_, ?_, inv.recorded, ?_⟩
  · exact inv.unshared other _ found entry id holds' holds points lambda
  · rw [owner]
    rfl
  · rw [stored, owner]
    rfl
  · rw [owner]
    rintro (⟨id, resource⟩ | ⟨m, asked, filled⟩)
    · cases resource
    · have listed : r.shims.getD id LambdaResource.fresh ∈ r.shims := by
        simp [List.getD_eq_getElem?_getD, inside]
      exact absurd ((inv.recorded _ listed m).trans filled) (List.any_eq_false.mp free m asked)

theorem ShimChosen.own {idx : HttpEndpoint} {fresh : Bool} {shims : List LambdaResource}
    (inv : r.Private rx cfg) (clean : NoEmptySegment path) (probes : r.Probes rx path)
    (parsed : HttpEndpoint.make rx path false true cfg.regexChecking = .ok idx)
    (chosen : ShimChosen rx r idx methods id fresh shims) :
    OwnShim r path methods id shims ∧
      (fresh = true → r.table.entryAt (placeOf path) = none ∧
        shims = r.shims ++ [LambdaResource.fresh] ∧ id = r.shims.length) ∧
      (fresh = false → ∃ entry, r.table.entryAt (placeOf path) = some entry ∧
        entry.handler = .lambda id) := by
  have probe := findV2EntryByPath_eq inv.sane.tiered inv.exactOnly clean parsed probes
  cases chosen with
  | new missing =>
    rw [probe] at missing
    exact ⟨ownShim_new inv methods missing, fun _ => ⟨missing, rfl, rfl⟩, fun old => nomatch old⟩
  | existing _ entry found lambda free =>
    rw [probe] at found
    exact ⟨ownShim_existing inv found lambda free, fun new => (nomatch new),
      fun _ => ⟨entry, found, lambda⟩⟩

section
variable {methods : MethodSet} {id : Nat} {shims : List LambdaResource}

theorem OwnShim.recorded_fill (own : OwnShim r path methods id shims) (h : Nat) :
    ∀ shim ∈ shims.modify id (LambdaResource.fill methods h), shim.Recorded := by
  intro shim listed
  rcases Assoc.mem_modify listed with kept | ⟨before, there, rfl⟩
  · exact own.recorded shim kept
  · exact HttpServer.recorded_fill (own.recorded before there) methods h

theorem OwnShim.kept (own : OwnShim r path methods id shims) (inv : r.Private rx cfg) (h : Nat)
    {other : Place} {found : RouteEntry} {id' : Nat} (apart : other ≠ placeOf path)
    (holds : r.table.Holds other found) (points : found.handler = .lambda id') :
    (shims.modify id (LambdaResource.fill methods h)).getD id' LambdaResource.fresh =
      r.shims.getD id' LambdaResource.fresh := by
  have distinct : id ≠ id' := by
    rintro rfl
    exact apart (own.sole other found holds points)
  rw [List.getD_eq_getElem?_getD, List.getElem?_modify_ne _ _ distinct,
    ← List.getD_eq_getElem?_getD, Assoc.getD_of_prefix own.front (inv.bounded other found id' holds points)]

theorem OwnShim.extended (own : OwnShim r path methods id shims) (h : Nat) :
    RouteEntry.owner (shims.modify id (LambdaResource.fill methods h))
        ⟨(priorMethods (r.table.entryAt (placeOf path))).union methods, .lambda id, false⟩ =
      Owner.extend (r.ownerOf path) methods h := by
  have filled : (shims.modify id (LambdaResource.fill methods h)).getD id LambdaResource.fresh =
      (shims.getD id LambdaResource.fresh).fill methods h := by
    simp [List.getD_eq_getElem?_getD, own.inside]
  simp only [RouteEntry.owner, filled, Owner.extend, own.prior]
  congr 1
  funext m
  rw [slots_fill, own.slots]

end

theorem onMethods_extends (inv : r.Private rx cfg) (clean : NoEmptySegment path)
    (probes : r.Probes rx path) (ok : outcome (onMethods rx cfg methods path handler) r = .ok ()) :
    let r' := after (onMethods rx cfg methods path handler) r
    ¬ Owner.Refuses (r.ownerOf path) methods ∧ r'.Private rx cfg ∧ ∃ h, handler = some h ∧
      ∀ place, r'.ownerAt place =
        if place = placeOf path then some (Owner.extend (r.ownerOf path) methods h)
        else r.ownerAt place := by
  intro r'
  have sane : r'.Sane rx cfg := sane_onMethods methods path handler inv.sane
  obtain ⟨h, idx, id, fresh, shims, t, valid, parsed, chosen, upserted, state⟩ := onMethods_ok ok
  have final : r' = ⟨t, shims.modify id (LambdaResource.fill methods h)⟩ := state
  obtain ⟨own, new, old⟩ := chosen.own inv clean probes parsed
  have probe := findV2EntryByPath_eq inv.sane.tiered inv.exactOnly clean parsed probes
  have writes := upserted.writes parsed probe (fun isNew => (new isNew).1) old
    fun other found holds points _ => own.sole other found holds points
  rw [final] at sane ⊢
  have longer : r.shims.length ≤ (shims.modify id (LambdaResource.fill methods h)).length := by
    rw [List.length_modify]
    exact own.front.length_le
  have inside : ∀ id', Handler.lambda id = .lambda id' →
      id' < (shims.modify id (LambdaResource.fill methods h)).length := by
    intro id' same
    cases same
    rw [List.length_modify]
    exact own.inside
  refine ⟨own.free, inv.write sane writes longer (own.recorded_fill h) inside ?_, h,
    (validateOnMethodsInputs_ok valid).1, fun place => ?_⟩
  · intro id' other found same holds points
    cases same
    exact own.sole other found holds points
  · rw [← own.extended h]
    exact @Registry.Private.ownerAt_write r
      ⟨t, shims.modify id (LambdaResource.fill methods h)⟩ _ _ writes
      (fun _ _ _ apart holds points => own.kept inv h apart holds points) place

theorem registerImpl_quiet (inv : r.Private rx cfg)
    (failed : outcome (registerImpl rx cfg path res false) r = .error e) :
    let r' := after (registerImpl rx cfg path res false) r
    r'.Private rx cfg ∧ ∀ place, r'.ownerAt place = r.ownerAt place := by
  intro r'
  have sane : r'.Sane rx cfg := sane_mutate (.registerPath path res) inv.sane
  rcases registerImpl_failed failed with ⟨same, -⟩ | ⟨-, segs, entry, bad, state⟩
  · rw [show r' = r from same]
    exact ⟨inv, fun _ => rfl⟩
  · have final : r' = { r with table := r.table.insertTrie rx segs entry false } := state
    rw [final] at sane ⊢
    exact inv.quiet sane (RouteTable.sameRoutes_insertTrie entry false bad) (List.prefix_refl _)
      inv.recorded

theorem onMethods_quiet (inv : r.Private rx cfg) (clean : NoEmptySegment path)
    (probes : r.Probes rx path)
    (failed : outcome (onMethods rx cfg methods path handler) r = .error e) :
    let r' := after (onMethods rx cfg methods path handler) r
    r'.Private rx cfg ∧ ∀ place, r'.ownerAt place = r.ownerAt place := by
  intro r'
  have sane : r'.Sane rx cfg := sane_onMethods methods path handler inv.sane
  rcases onMethods_failed failed with
    ⟨same, -⟩ | ⟨h, idx, id, fresh, shims, valid, parsed, chosen, threw, state⟩
  · rw [show r' = r from same]
    exact ⟨inv, fun _ => rfl⟩
  · obtain ⟨segments, pars⟩ := HttpEndpoint.make_segments parsed
    obtain ⟨own, new, old⟩ := chosen.own inv clean probes parsed
    have apart : r.table.collides idx.urlComplete false = false := by
      simp [RouteTable.collides, TrieNode.hasTerminusAt_eq inv.sane.table.1, inv.exactOnly]
    -- the entry of the path itself means that all its nodes are there
    have isNew : fresh = true := by
      by_contra notNew
      obtain ⟨entry, stored, -⟩ := old (by simpa using notNew)
      rcases upsertV2TableEntryLocked_error threw with
        ⟨-, ⟨-, collides⟩ | ⟨-, isNew⟩⟩ | ⟨wild, -, bad, -⟩
      · rw [apart] at collides
        cases collides
      · exact notNew isNew
      · rw [placeOf_make parsed, if_pos wild] at stored
        obtain ⟨last, there, -⟩ := Option.bind_eq_some_iff.mp stored
        exact bad (TrieNode.firstBad_of_nodeAt rx there)
    obtain ⟨-, rfl, rfl⟩ := new isNew
    have final : r' = ⟨_, _⟩ := state
    rw [final] at sane ⊢
    refine inv.quiet sane ?_ (Assoc.prefix_modify_new _ _ _) (own.recorded_fill h)
    rcases upsertV2TableEntryLocked_error threw with ⟨same, -⟩ | ⟨-, -, bad, entry, written⟩
    · rw [same]
      exact RouteTable.sameRoutes_refl _
    · rw [written]
      exact RouteTable.sameRoutes_insertTrie entry false bad

end

def RouteCall.exactPath : RouteCall → Option Str
  | .registerPath path _ | .on _ path _ | .routeMethod _ path _ | .routeSet _ path _ => some path
  | _ => none

def RouteCall.InScope (c : RouteCall) : Prop := ∃ path ∈ c.exactPath, NoEmptySegment path

instance decidableInScope (c : RouteCall) : Decidable c.InScope :=
  inferInstanceAs (Decidable (∃ path ∈ c.exactPath, NoEmptySegment path))

theorem RouteCall.InScope.cases {c : RouteCall} (scope : c.InScope) :
    (∃ path res, c.registerArguments = some (path, res, false) ∧ NoEmptySegment path) ∨
      ∃ methods path handler, c.registerArguments = none ∧
        c.onArguments = some (methods, path, handler) ∧ NoEmptySegment path := by
  obtain ⟨path, given, clean⟩ := scope
  cases c with
  | registerPath path' res =>
    cases given
    exact Or.inl ⟨path, res, rfl, clean⟩
  | on forwarder path' handler =>
    cases given
    exact Or.inr ⟨_, path, handler, rfl, rfl, clean⟩
  | routeMethod m path' handler =>
    cases given
    exact Or.inr ⟨_, path, handler, rfl, rfl, clean⟩
  | routeSet methods path' handler =>
    cases given
    exact Or.inr ⟨methods, path, handler, rfl, rfl, clean⟩
  | _ => cases given

structure Ledger where
  registry : Registry
  owners : Owners

namespace Ledger
variable {rx : RegexEngine} {cfg : RouteConfig}

def fresh : Ledger := ⟨Registry.empty, fun _ => none⟩

def step (rx : RegexEngine) (cfg : RouteConfig) (s : Ledger) (c : RouteCall) : Ledger where
  registry := after (c.mutate rx cfg) s.registry
  owners :=
    match outcome (c.mutate rx cfg) s.registry with
    | .ok _ => s.owners.record c
    | .error _ => s.owners

def Probes (rx : RegexEngine) (s : Ledger) (c : RouteCall) : Prop :=
  ∀ arguments ∈ c.onArguments, s.registry.Probes rx arguments.2.1

instance decidableProbes (rx : RegexEngine) (s : Ledger) (c : RouteCall) :
    Decidable (s.Probes rx c) :=
  inferInstanceAs (Decidable (∀ arguments ∈ c.onArguments,
    (tokenizeUrl arguments.2.1).any isWildcardSegment = true →
      s.registry.table.paramAndPrefixRoutes.ReadsBack rx (tokenizeUrl arguments.2.1)))

structure Agrees (rx : RegexEngine) (cfg : RouteConfig) (s : Ledger) : Prop where
  inv : s.registry.Private rx cfg
  owners : ∀ path, NoEmptySegment path →
    s.registry.ownerOf path = s.owners (shapeOf (tokenizeUrl path))

theorem agrees_fresh : fresh.Agrees rx cfg := by
  have bare : ∀ shape kind,
      Registry.empty.table.paramAndPrefixRoutes.terminusAt shape kind = none := fun shape kind =>
    TrieNode.terminusAt_bare TrieNode.next_empty (fun kind => by cases kind <;> rfl) shape kind
  have nothing : ∀ place entry, ¬ Registry.empty.table.Holds place entry := by
    intro place entry holds
    cases place with
    | pattern shape =>
      rw [RouteTable.Holds, bare] at holds
      cases holds
    | key text => rcases holds with listed | ⟨rr, listed, -⟩ <;> cases listed
  refine ⟨⟨sane_empty, fun shape => bare shape true,
    fun place entry id holds => absurd holds (nothing place entry),
    fun place other entry found id holds => absurd holds (nothing place entry),
    fun shim listed => absurd listed List.not_mem_nil⟩, fun path clean => ?_⟩
  change ((Registry.empty.table.entryAt (placeOf path)).map _) = none
  cases stored : Registry.empty.table.entryAt (placeOf path) with
  | none => rfl
  | some entry => exact absurd (RouteTable.holds_of_entryAt stored) (nothing _ entry)

theorem owners_update {r r' : Registry} {owners : Owners} {path : Str} {owner : Owner}
    (clean : NoEmptySegment path)
    (agree : ∀ path, NoEmptySegment path → r.ownerOf path = owners (shapeOf (tokenizeUrl path)))
    (written : ∀ place, r'.ownerAt place =
      if place = placeOf path then some owner else r.ownerAt place) :
    ∀ other, NoEmptySegment other → r'.ownerOf other =
      Function.update owners (shapeOf (tokenizeUrl path)) (some owner)
        (shapeOf (tokenizeUrl other)) := by
  intro other cleanOther
  rw [Registry.ownerOf, written]
  by_cases same : placeOf other = placeOf path
  · rw [if_pos same, (placeOf_eq_iff cleanOther clean).mp same, Function.update_self]
  · have apart : shapeOf (tokenizeUrl other) ≠ shapeOf (tokenizeUrl path) :=
      fun shape => same ((placeOf_eq_iff cleanOther clean).mpr shape)
    rw [if_neg same, Function.update_of_ne apart]
    exact agree other cleanOther

theorem failed_quiet {s : Ledger} {c : RouteCall} {e : RegistrationError} (agrees : s.Agrees rx cfg)
    (scope : c.InScope) (probes : s.Probes rx c)
    (failed : outcome (c.mutate rx cfg) s.registry = .error e) :
    (after (c.mutate rx cfg) s.registry).Private rx cfg ∧
      ∀ place, (after (c.mutate rx cfg) s.registry).ownerAt place = s.registry.ownerAt place := by
  rcases scope.cases with ⟨path, res, registers, clean⟩ | ⟨methods, path, handler, -, routes, clean⟩
  · rw [RouteCall.mutate_register registers] at failed ⊢
    exact registerImpl_quiet agrees.inv failed
  · rcases RouteCall.mutate_on routes rx cfg with ⟨e', program, -⟩ | program
    · rw [program]
      exact ⟨agrees.inv, fun _ => rfl⟩
    · rw [program] at failed ⊢
      exact onMethods_quiet agrees.inv clean (probes _ routes) failed

theorem agrees_step (s : Ledger) (c : RouteCall) (agrees : s.Agrees rx cfg)
    (ok : c.InScope ∧ s.Probes rx c) : (s.step rx cfg c).Agrees rx cfg := by
  obtain ⟨scope, probes⟩ := ok
  cases result : outcome (c.mutate rx cfg) s.registry with
  | error e =>
    obtain ⟨inv, same⟩ := failed_quiet agrees scope probes result
    refine ⟨inv, fun path clean => ?_⟩
    simp only [step, result]
    exact (same (placeOf path)).trans (agrees.owners path clean)
  | ok _ =>
    rcases scope.cases with
      ⟨path, res, registers, clean⟩ | ⟨methods, path, handler, noRegister, routes, clean⟩
    · have program := RouteCall.mutate_register registers rx cfg
      obtain ⟨inv, id, rfl, written⟩ := registerImpl_owns agrees.inv (program ▸ result)
      rw [← program] at inv written
      refine ⟨inv, ?_⟩
      simp only [step, result, Owners.record, registers]
      exact owners_update clean agrees.owners written
    · rcases RouteCall.mutate_on routes rx cfg with ⟨e, program, -⟩ | program
      · rw [program] at result
        cases result
      · obtain ⟨-, inv, h, rfl, written⟩ :=
          onMethods_extends agrees.inv clean (probes _ routes) (program ▸ result)
        rw [← program] at inv written
        refine ⟨inv, ?_⟩
        simp only [step, result, Owners.record, noRegister, routes, ← agrees.owners path clean]
        exact owners_update clean agrees.owners written

/-- Along a run of calls whose patterns read back, every path has the owner the
    successful calls gave it, and a call for a method or path that is taken throws
    and changes no owner. -/
theorem handlers_neither_lost_nor_leaked (rx : RegexEngine) (cfg : RouteConfig)
    (calls : List RouteCall) (scope : ∀ c ∈ calls, c.InScope)
    (probes : Within (step rx cfg) (Probes rx) fresh calls) :
    let s := calls.foldl (step rx cfg) fresh
    (∀ path, NoEmptySegment path →
        s.registry.ownerOf path = s.owners (shapeOf (tokenizeUrl path))) ∧
      ∀ (c : RouteCall) (methods : MethodSet) (path : Str) (handler : Option Nat),
        c.onArguments = some (methods, path, handler) → NoEmptySegment path → s.Probes rx c →
        Owner.Refuses (s.owners (shapeOf (tokenizeUrl path))) methods →
          (∃ e, outcome (c.mutate rx cfg) s.registry = .error e) ∧
            ∀ other, NoEmptySegment other →
              (s.step rx cfg c).registry.ownerOf other = s.registry.ownerOf other := by
  intro s
  have agrees : s.Agrees rx cfg :=
    Run.invariant agrees_step agrees_fresh (within_and scope probes)
  refine ⟨agrees.owners, fun c methods path handler routes clean reads refuses => ?_⟩
  rw [← agrees.owners path clean] at refuses
  have inScope : c.InScope := by
    refine ⟨path, ?_, clean⟩
    cases c <;> cases routes <;> rfl
  have fails : ∃ e, outcome (c.mutate rx cfg) s.registry = .error e := by
    cases result : outcome (c.mutate rx cfg) s.registry with
    | error e => exact ⟨e, rfl⟩
    | ok _ =>
      rcases RouteCall.mutate_on routes rx cfg with ⟨e, program, -⟩ | program
      · rw [program] at result
        cases result
      · exact absurd refuses
          (onMethods_extends agrees.inv clean (reads _ routes) (program ▸ result)).1
  obtain ⟨e, failed⟩ := fails
  exact ⟨⟨e, failed⟩, fun other _ =>
    (failed_quiet agrees inScope reads failed).2 (placeOf other)⟩

def sharedCalls : List RouteCall :=
  [.on .onGet "/a/{x}".toList (some 7), .registerPath "/b/{y}/c".toList (some 1),
   .routeSet (MethodSet.noMethods.set .put |>.set .patch) "a/{id}/".toList (some 8),
   .on .onGet "/a/{x}".toList (some 9), .on .onPost "/d".toList (some 7)]

theorem shared_calls_keep_handlers :
    let s := sharedCalls.foldl (step Server.literalEngine ⟨false, false⟩) fresh
    (∀ path, NoEmptySegment path →
        s.registry.ownerOf path = s.owners (shapeOf (tokenizeUrl path))) ∧
      ∀ (c : RouteCall) (methods : MethodSet) (path : Str) (handler : Option Nat),
        c.onArguments = some (methods, path, handler) → NoEmptySegment path →
        s.Probes Server.literalEngine c →
        Owner.Refuses (s.owners (shapeOf (tokenizeUrl path))) methods →
          (∃ e, outcome (c.mutate Server.literalEngine ⟨false, false⟩) s.registry = .error e) ∧
            ∀ other, NoEmptySegment other →
              (s.step Server.literalEngine ⟨false, false⟩ c).registry.ownerOf other =
                s.registry.ownerOf other :=
  handlers_neither_lost_nor_leaked Server.literalEngine ⟨false, false⟩ sharedCalls
    (by decide +kernel) (by decide +kernel)

def digitsCalls : List RouteCall :=
  [.on .onGet Server.itemPath (some 7), .on .onPost Server.itemPath (some 8)]

def strayCalls : List RouteCall :=
  [.on .onGet "/{y}/{x}".toList (some 7), .on .onPost "/a/{x}".toList (some 8)]

/-- The text of a constrained parameter is no request its constraint accepts, so
    the second call misses the entry of the first and replaces it: the `GET`
    handler is gone. And a literal that is not in the trie yet is taken for the
    value of another route's parameter: the `POST` handler goes to that route too. -/
theorem constrained_handler_lost_and_stray_handler_leaked :
    (∀ c ∈ digitsCalls ++ strayCalls, c.InScope) ∧
    Within (step Server.literalEngine ⟨false, false⟩)
      (fun s => s.registry.Succeeds Server.literalEngine ⟨false, false⟩) fresh digitsCalls ∧
    (let s := digitsCalls.foldl (step Server.literalEngine ⟨false, false⟩) fresh
     Owner.slots (s.owners (shapeOf (tokenizeUrl Server.itemPath))) .get = some 7 ∧
       Owner.slots (s.registry.ownerOf Server.itemPath) .get = none) ∧
    Within (step Server.literalEngine ⟨false, false⟩)
      (fun s => s.registry.Succeeds Server.literalEngine ⟨false, false⟩) fresh strayCalls ∧
    (let s := strayCalls.foldl (step Server.literalEngine ⟨false, false⟩) fresh
     Owner.slots (s.owners (shapeOf (tokenizeUrl "/{y}/{x}".toList))) .post = none ∧
       Owner.slots (s.registry.ownerOf "/{y}/{x}".toList) .post = some 8) := by
  decide +kernel

end Ledger
end HttpServer
