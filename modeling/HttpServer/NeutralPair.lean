import HttpServer.RegistryInvariant

/-!
Registering a path and unregistering it again. What is left is compared by what
later calls and lookups answer, cache included. A path outside the trie leaves
nothing; one inside it leaves the nodes it had to create, so the pair is neutral
when they were all there.
-/
namespace HttpServer
open Effect LruCache Run

section
variable {rx : RegexEngine} {cfg : RouteConfig}

theorem unregisterImpl_of_make {path : Str} {family : Bool} {idx : HttpEndpoint} (r : Registry)
    (parsed : HttpEndpoint.make rx path family true cfg.regexChecking = .ok idx) :
    outcome (unregisterImpl rx cfg path family) r = .ok () := by
  unfold unregisterImpl
  rw [parsed]
  change outcome (ite _ _ _) r = _
  split
  · rfl
  · split
    · rfl
    · rfl

theorem removeTrie_insertTrie {t : RouteTable} {segs : List Str} {isPrefix : Bool}
    (tidy : t.paramAndPrefixRoutes.Tidy) (entry : RouteEntry)
    (there : (t.paramAndPrefixRoutes.nodeAt (shapeOf segs)).isSome)
    (bare : t.paramAndPrefixRoutes.terminusAt (shapeOf segs) isPrefix = none) :
    (t.insertTrie rx segs entry isPrefix).removeTrie segs isPrefix = t := by
  obtain ⟨last, found⟩ := Option.isSome_iff_exists.mp there
  rw [TrieNode.terminusAt, found] at bare
  have back := TrieNode.removeSegments_insertSegments rx entry tidy found bare
  simp only [RouteTable.removeTrie, RouteTable.insertTrie, back]

theorem eraseKey_of_free {t : RouteTable} {key : Str} (noExact : ∀ kv ∈ t.exactRoutes, kv.1 ≠ key)
    (noRegex : ∀ rr ∈ t.regexRoutes, rr.urlComplete ≠ key) : t.eraseKey key = t := by
  have keepExact := List.filter_eq_self.mpr fun kv listed => decide_eq_true (noExact kv listed)
  have keepRegex := List.filter_eq_self.mpr fun rr listed => decide_eq_true (noRegex rr listed)
  rw [RouteTable.eraseKey, keepExact, keepRegex]

def RouteTable.HasNodes (t : RouteTable) (path : Str) (family : Bool) : Prop :=
  (family || (tokenizeUrl path).any isWildcardSegment) = true →
    (t.paramAndPrefixRoutes.nodeAt (shapeOf (tokenizeUrl path))).isSome

instance decidableHasNodes (t : RouteTable) (path : Str) (family : Bool) :
    Decidable (t.HasNodes path family) :=
  inferInstanceAs (Decidable (_ → _))

theorem unregister_register {r : Registry} {path : Str} {res : Option Nat} {family : Bool}
    (sane : r.Sane rx cfg) (registered : outcome (registerImpl rx cfg path res family) r = .ok ())
    (there : r.table.HasNodes path family) :
    outcome (unregisterImpl rx cfg path family) (after (registerImpl rx cfg path res family) r) =
        .ok () ∧
      after (unregisterImpl rx cfg path family) (after (registerImpl rx cfg path res family) r) =
        r := by
  obtain ⟨id, idx, t, -, parsed, placed, state⟩ := registerImpl_ok registered
  obtain ⟨segments, pars⟩ := HttpEndpoint.make_segments parsed
  have complete := (HttpEndpoint.make_ok parsed).1
  have removed := unregisterImpl_of_make (after (registerImpl rx cfg path res family) r) parsed
  refine ⟨removed, ?_⟩
  rw [unregisterImpl_ok removed, state]
  suffices back : (if family || (tokenizeUrl path).any isWildcardSegment then
      t.removeTrie (tokenizeUrl path) family else t.eraseKey (normalizeUrlComplete path)) =
      r.table by
    rw [back]
  cases placed with
  | trie stored compiles free =>
    have inTrie : (family || (tokenizeUrl path).any isWildcardSegment) = true := by
      rw [Bool.or_eq_true]
      exact stored.imp_right pars.mp
    have bare := free family
    rw [TrieNode.hasTerminusAt_eq sane.table.1, segments] at bare
    rw [if_pos inTrie, segments]
    exact removeTrie_insertTrie sane.table.1 _ (there inTrie) (by simpa using bare)
  | exactly single tier free =>
    subst single
    have plain : ¬ (tokenizeUrl path).any isWildcardSegment = true := fun wild =>
      nomatch tier.symm.trans (classifyRouteTier_radix (pars.mpr wild))
    rw [if_neg (by simpa using plain), ← complete]
    have own : KeyTier rx cfg idx.urlComplete .exact := ⟨path, idx, parsed, rfl, tier⟩
    simpa [RouteTable.eraseKey, List.filter_append] using
      eraseKey_of_free ((Assoc.lookup_eq_none_iff_keys _ _).mp free) (sane.tiered.regex_free own)
  | regex re single tier free =>
    subst single
    have plain : ¬ (tokenizeUrl path).any isWildcardSegment = true := fun wild =>
      nomatch tier.symm.trans (classifyRouteTier_radix (pars.mpr wild))
    rw [if_neg (by simpa using plain), ← complete]
    have own : KeyTier rx cfg idx.urlComplete (.regex re) := ⟨path, idx, parsed, rfl, tier⟩
    simpa [RouteTable.eraseKey, List.filter_append] using
      eraseKey_of_free (sane.tiered.exact_free own (by simp)) free

end

inductive Outcome where
  | called (result : Except RegistrationError Unit)
  | answered (found : Option (RouteEntry × Captures))
  deriving DecidableEq

namespace Server
variable {rx : RegexEngine} {cfg : RouteConfig}

def observe (rx : RegexEngine) (cfg : RouteConfig) (s : Server) : RouteOp → Outcome
  | .call c => .called (outcome (c.mutate rx cfg) s.registry)
  | .lookup method path =>
    .answered ((s.registry.table.lookupV2 rx s.cache method path).2.map RouteTable.answer)

/-- Two servers whose caches are the only thing that differs, and that are
    coherent, cannot be told apart. -/
def Alike (rx : RegexEngine) (s s' : Server) : Prop :=
  s.registry = s'.registry ∧ s.Coherent rx ∧ s'.Coherent rx

theorem regexValid_congr {s s' : Server} (same : s.registry = s'.registry) (op : RouteOp)
    (valid : s.RegexValid rx cfg op) : s'.RegexValid rx cfg op := by
  cases op with
  | call c =>
    rw [RegexValid, failsOnRegex, same] at valid
    exact valid
  | lookup method path => trivial

theorem observe_alike (s s' : Server) (op : RouteOp) (alike : s.Alike rx s')
    (_ : s.RegexValid rx cfg op) : s.observe rx cfg op = s'.observe rx cfg op := by
  obtain ⟨same, coherent, coherent'⟩ := alike
  cases op with
  | call c => rw [observe, observe, same]
  | lookup method path =>
    rw [observe, observe, RouteTable.lookupV2_answer coherent, RouteTable.lookupV2_answer coherent',
      same]

theorem step_alike (s s' : Server) (op : RouteOp) (alike : s.Alike rx s')
    (valid : s.RegexValid rx cfg op) : (s.step rx cfg op).Alike rx (s'.step rx cfg op) := by
  obtain ⟨same, coherent, coherent'⟩ := alike
  have valid' := regexValid_congr same op valid
  refine ⟨?_, step_coherent s op coherent valid, step_coherent s' op coherent' valid'⟩
  cases op with
  | call c => rw [step, step, registry_call, registry_call, same]
  | lookup method path => exact same

theorem sane_step (s : Server) (op : RouteOp) (sane : s.registry.Sane rx cfg) :
    (s.step rx cfg op).registry.Sane rx cfg := by
  cases op with
  | call c =>
    rw [step, registry_call]
    exact sane_mutate c sane
  | lookup method path => exact sane

def registration (path : Str) (res : Option Nat) (family : Bool) : RouteCall :=
  if family then .registerPrefix path res else .registerPath path res

def unregistration (path : Str) (family : Bool) : RouteCall :=
  if family then .unregisterPrefix path else .unregisterPath path

theorem mutate_registration (path : Str) (res : Option Nat) (family : Bool) :
    (registration path res family).mutate rx cfg = registerImpl rx cfg path res family := by
  cases family with
  | true => rfl
  | false => rfl

theorem mutate_unregistration (path : Str) (family : Bool) :
    (unregistration path family).mutate rx cfg = unregisterImpl rx cfg path family := by
  cases family with
  | true => rfl
  | false => rfl

/-- Registering and unregistering a path whose nodes are in the trie, or that is
    kept outside it, changes no later answer. -/
theorem register_unregister_neutral (rx : RegexEngine) (cfg : RouteConfig) (capacity : Nat)
    (positive : 0 < capacity) (before later : List RouteOp) (path : Str) (res : Option Nat)
    (family : Bool)
    (beforeValid : Within (step rx cfg) (RegexValid rx cfg) (fresh capacity positive) before) :
    let s := before.foldl (step rx cfg) (fresh capacity positive)
    outcome ((registration path res family).mutate rx cfg) s.registry = .ok () →
    s.registry.table.HasNodes path family →
    Within (step rx cfg) (RegexValid rx cfg) s later →
      let pair := [RouteOp.call (registration path res family),
        RouteOp.call (unregistration path family)]
      outputs (step rx cfg) (observe rx cfg) (pair.foldl (step rx cfg) s) later =
        outputs (step rx cfg) (observe rx cfg) s later := by
  intro s registered there laterValid pair
  have reached : s.Coherent rx ∧ s.registry.Sane rx cfg :=
    Run.invariant (I := fun s => s.Coherent rx ∧ s.registry.Sane rx cfg)
      (fun s op inv valid => ⟨step_coherent s op inv.1 valid, sane_step s op inv.2⟩)
      ⟨Lru.holds_empty capacity positive, sane_empty⟩ beforeValid
  obtain ⟨coherent, sane⟩ := reached
  rw [mutate_registration] at registered
  obtain ⟨removed, back⟩ := unregister_register sane registered there
  have alike : s.Alike rx (pair.foldl (step rx cfg) s) := by
    change s.Alike rx ((s.call rx cfg (registration path res family)).call rx cfg
      (unregistration path family))
    have middle : (s.call rx cfg (registration path res family)).registry =
        after (registerImpl rx cfg path res family) s.registry := by
      rw [registry_call, mutate_registration]
    refine ⟨?_, coherent, ?_⟩
    · rw [registry_call, middle, mutate_unregistration, back]
    · rw [call, middle, mutate_unregistration, removed]
      exact Lru.holds_clear
  exact (outputs_congr observe_alike step_alike alike laterValid).symm

def nestedRun : List RouteOp :=
  [.call (.registerPath "/a/{x}/c".toList (some 1)), .lookup .get "/a/5/c".toList]

def laterRun : List RouteOp :=
  [.lookup .get "/a/5/c".toList, .call (.registerPrefix "/a/{x}".toList (some 3)),
   .lookup .get "/a/5".toList, .call (.registerPath "/a/{x}".toList (some 4))]

theorem inner_node_pair_neutral :
    let s := nestedRun.foldl (step literalEngine ⟨false, false⟩) (fresh 4 (Nat.succ_pos 3))
    outputs (step literalEngine ⟨false, false⟩) (observe literalEngine ⟨false, false⟩)
        ([RouteOp.call (registration "/a/{x}".toList (some 2) false),
          RouteOp.call (unregistration "/a/{x}".toList false)].foldl
            (step literalEngine ⟨false, false⟩) s) laterRun =
      outputs (step literalEngine ⟨false, false⟩) (observe literalEngine ⟨false, false⟩) s
        laterRun :=
  register_unregister_neutral literalEngine ⟨false, false⟩ 4 (Nat.succ_pos 3) nestedRun laterRun
    "/a/{x}".toList (some 2) false (by decide +kernel) (by decide +kernel) (by decide +kernel)
    (by decide +kernel)

/-- `/{x}/b` answers the request `/a/b`. The pair for `/a/{y}` leaves the literal
    node `a` behind, and the descent ends there from now on. -/
theorem unregistered_node_hides_route :
    let s := [RouteOp.call (.registerPath "/{x}/b".toList (some 1))].foldl
      (step literalEngine ⟨false, false⟩) (fresh 4 (Nat.succ_pos 3))
    outcome ((registration "/a/{y}".toList (some 2) false).mutate literalEngine ⟨false, false⟩)
        s.registry = .ok () ∧
      outputs (step literalEngine ⟨false, false⟩) (observe literalEngine ⟨false, false⟩) s
          [.lookup .get "/a/b".toList] =
        [.answered (some (⟨.setAll, .resource 1, false⟩, [("x".toList, "a".toList)]))] ∧
      outputs (step literalEngine ⟨false, false⟩) (observe literalEngine ⟨false, false⟩)
          ([RouteOp.call (registration "/a/{y}".toList (some 2) false),
            RouteOp.call (unregistration "/a/{y}".toList false)].foldl
              (step literalEngine ⟨false, false⟩) s) [.lookup .get "/a/b".toList] =
        [.answered none] := by
  decide +kernel

end Server
end HttpServer
