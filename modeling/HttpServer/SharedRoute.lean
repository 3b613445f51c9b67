import HttpServer.HandlerOwnership
import HttpServer.SoleRoute

/-!
One path and the handlers `route` gives it, on a server with no other route. The
handlers share a shim as long as every later call finds the entry of the earlier
ones. Its probe looks the text of the path up as if it were a request, so they
stay together when a pattern matches its own text, and the last handler replaces
the others when it does not.
-/
namespace HttpServer
open Effect LruCache Run

namespace TrieNode
variable {T : Type} {rx : RegexEngine} {node below : TrieNode T} {segs pats : List Str} {seg : Str}

theorem insertSegments_again {isPrefix : Bool} (one two : T)
    (compiles : firstBad rx node segs = none) :
    (insertSegments rx two isPrefix (insertSegments rx one isPrefix node segs).1 segs).1 =
      (insertSegments rx two isPrefix node segs).1 := by
  induction segs generalizing node with
  | nil => cases isPrefix <;> rfl
  | cons seg segs ih =>
    rw [firstBad] at compiles
    by_cases stop : node.blocked rx seg = true
    · simp [stop] at compiles
    · simp only [stop, Bool.false_eq_true, if_false] at compiles
      rw [insertSegments_cons rx one, insertSegments_cons rx two isPrefix node]
      simp only [stop, Bool.false_eq_true, if_false]
      have edge : ∀ below : TrieNode T,
          (node.setNext (slotOf seg) below).next (slotOf seg) = some below := by
        intro below
        rw [next_setNext, if_pos rfl]
      rw [insertSegments_cons rx two, blocked_of_next (edge _), edge]
      simp only [Bool.false_eq_true, if_false, Option.getD_some]
      rw [ih compiles, setNext_setNext]

theorem follow_literal (edge : node.next (some seg) = some below) (shape : List (Option Str))
    (segs : List Str) :
    follow rx node (some seg :: shape) (seg :: segs) = follow rx below shape segs := by
  have child : node.child seg = some below := edge
  simp [follow, child]

theorem follow_wildcard (literal : node.next (some seg) = none) (edge : node.next none = some below)
    (fits : below.accepts rx seg = true) (shape : List (Option Str)) (segs : List Str) :
    follow rx node (none :: shape) (seg :: segs) =
      (follow rx below shape segs).map fun end_ =>
        (end_.1, (below.wildcardName, seg) :: end_.2) := by
  have child : node.child seg = none := literal
  have wildcard : node.wildcardChild = some below := edge
  simp [follow, child, wildcard, fits]

variable {caps : List (Str × Str)}

theorem reaches_edge (leaf : ∀ slot, node.next slot = none) {pat : Str} {entry : T}
    (label : below.label = labelOf pat)
    (fits : patternMatch rx false (pat :: pats) (seg :: segs) = some caps)
    (deeper : ∀ more, patternMatch rx false pats segs = some more →
      Reaches rx below segs (shapeOf pats) false entry more) :
    Reaches rx (node.setNext (slotOf pat) below) (seg :: segs) (shapeOf (pat :: pats)) false entry
      caps := by
  have edge : (node.setNext (slotOf pat) below).next (slotOf pat) = some below := by
    rw [next_setNext, if_pos rfl]
  rw [shapeOf_cons]
  by_cases wild : isWildcardSegment pat = true
  · have literal : (node.setNext (slotOf pat) below).next (some seg) = none := by
      rw [slotOf_wildcard wild, next_setNext, if_neg (by simp), leaf]
    simp only [TrieNode.label, labelOf, wild, if_true, Prod.mk.injEq] at label
    rw [patternMatch, if_pos wild] at fits
    split at fits
    · rename_i accepted
      obtain ⟨more, rest, rfl⟩ := Option.map_eq_some_iff.mp fits
      obtain ⟨last, walk, stored, length⟩ := deeper more rest
      have fitting : below.accepts rx seg = true := by
        rw [accepts, label.2]
        split
        · rfl
        · rename_i constrained
          exact accepted.resolve_left constrained
      rw [slotOf_wildcard wild] at edge literal ⊢
      refine ⟨last, ?_, stored, fun kind => congrArg Nat.succ (length kind)⟩
      rw [follow_wildcard literal edge fitting, walk, label.1]
      rfl
    · cases fits
  · rw [patternMatch, if_neg wild] at fits
    split at fits
    · rename_i same
      obtain ⟨last, walk, stored, length⟩ := deeper caps fits
      rw [slotOf_literal (by simpa using wild), same] at edge ⊢
      refine ⟨last, ?_, stored, fun kind => congrArg Nat.succ (length kind)⟩
      rw [follow_literal edge, walk]
    · cases fits

theorem reaches_sole (leaf : ∀ slot, node.next slot = none) (entry : T)
    (compiles : firstBad rx node pats = none) (fits : patternMatch rx false pats segs = some caps) :
    Reaches rx (insertSegments rx entry false node pats).1 segs (shapeOf pats) false entry caps := by
  induction pats generalizing node segs caps with
  | nil =>
    have whole : segs = [] := by
      by_contra more
      simp [patternMatch, more] at fits
    subst whole
    cases fits
    exact reaches_nil.mpr ⟨rfl, by simp [insertSegments], fun _ => rfl⟩
  | cons pat pats ih =>
    cases segs with
    | nil => cases fits
    | cons seg segs =>
      rw [firstBad] at compiles
      by_cases stop : node.blocked rx pat = true
      · simp [stop] at compiles
      · rw [insertSegments_cons]
        simp only [stop, Bool.false_eq_true, if_false, leaf, Option.getD_none] at compiles ⊢
        have label := label_insertSegments rx entry false (fresh pat) pats
        exact reaches_edge leaf (label.trans (label_fresh pat)) fits fun more rest =>
          ih (next_fresh pat) compiles rest

theorem findSegments_sole (entry : T) (compiles : firstBad rx (empty : TrieNode T) pats = none)
    (segs : List Str) :
    findSegments rx (insertSegments rx entry false empty pats).1 segs =
      (patternMatch rx false pats segs).map fun caps => ⟨entry, caps, false⟩ := by
  have bare : ∀ shape kind, (empty : TrieNode T).terminusAt shape kind = none :=
    terminusAt_bare next_empty fun kind => by cases kind <;> rfl
  have sound : ∀ m, findSegments rx (insertSegments rx entry false empty pats).1 segs = some m →
      patternMatch rx false pats segs = some m.captures ∧ m = ⟨entry, m.captures, false⟩ := by
    intro m found
    obtain ⟨shape, reached⟩ := findSegments_some found
    have stored := reached.terminusAt
    rw [terminusAt_insertSegments, bare] at stored
    split at stored
    · rename_i here
      obtain ⟨-, rfl, kind⟩ := here
      obtain ⟨last, walk, -, whole⟩ := reached
      refine ⟨patternMatch_of_follow walk (carries_insertSegments_self rx entry false compiles
        (agreesWith_leaf next_empty pats)) fun _ => ?_, ?_⟩
      · simpa [shapeOf] using whole kind
      · cases m
        cases stored
        cases kind
        rfl
    · cases stored
  cases fits : patternMatch rx false pats segs with
  | some caps =>
    cases found : findSegments rx (insertSegments rx entry false empty pats).1 segs with
    | none =>
      exact absurd (reaches_sole next_empty entry compiles fits)
        (findSegments_none found _ _ _ _)
    | some m =>
      obtain ⟨same, form⟩ := sound m found
      rw [fits] at same
      rw [form, Option.map_some, Option.some.inj same]
  | none =>
    cases found : findSegments rx (insertSegments rx entry false empty pats).1 segs with
    | none => rfl
    | some m =>
      have same := (sound m found).1
      rw [fits] at same
      cases same

end TrieNode

namespace RouteTier

def sole (rx : RegexEngine) (key : Str) (entry : RouteEntry) : RouteTier → RouteTable
  | .radix => RouteTable.empty.insertTrie rx (tokenizeUrl key) entry false
  | .exact => { RouteTable.empty with exactRoutes := [(key, entry)] }
  | .regex re => { RouteTable.empty with regexRoutes := [⟨key, re, entry⟩] }

def answers (rx : RegexEngine) (key : Str) (c : CanonicalPath) : RouteTier → Option Captures
  | .radix => patternMatch rx false (tokenizeUrl key) c.segments
  | .exact => if c.text = key then some [] else none
  | .regex re => if rx.regexMatch c.text re then some [] else none

def Compiles (rx : RegexEngine) (key : Str) (tier : RouteTier) : Prop :=
  tier = .radix →
    (TrieNode.empty : TrieNode RouteEntry).firstBad rx (tokenizeUrl key) = none

variable {rx : RegexEngine} {key : Str} {tier : RouteTier}

theorem find_sole (compiles : Compiles rx key .radix) (entry : RouteEntry) (path : Str) :
    (sole rx key entry .radix).paramAndPrefixRoutes.find rx path =
      (patternMatch rx false (tokenizeUrl key) (poppedSegments path)).map
        fun caps => ⟨entry, caps, false⟩ :=
  TrieNode.findSegments_sole entry (compiles rfl) (poppedSegments path)

theorem coldLookup_sole (compiles : tier.Compiles rx key) (entry : RouteEntry)
    (c : CanonicalPath) :
    (tier.sole rx key entry).coldLookup rx c.text =
      (tier.answers rx key c).map fun captures => (entry, captures) := by
  cases tier with
  | exact =>
    refine (RouteTable.noRoute_empty.coldLookup_exact key entry c).trans ?_
    by_cases hit : c.text = key
    · simp [answers, hit]
    · simp [answers, hit]
  | regex re =>
    refine (RouteTable.noRoute_empty.coldLookup_regex key re entry c).trans ?_
    by_cases hit : rx.regexMatch c.text re = true
    · simp [answers, hit]
    · simp [answers, hit]
  | radix =>
    have found := find_sole compiles entry c.text
    rw [c.poppedSegments_text] at found
    have missing : (sole rx key entry .radix).probeExact c.text = none := rfl
    have noRegex : (sole rx key entry .radix).regexRoutes = [] := rfl
    simp only [RouteTable.coldLookup, RouteTable.walkTiers, c.canonicalizeLookupPath_text, missing,
      found, noRegex, answers]
    cases patternMatch rx false (tokenizeUrl key) c.segments with
    | none => rfl
    | some caps => rfl

end RouteTier

def ReadsItself (rx : RegexEngine) (path : Str) : Prop :=
  (tokenizeUrl path).any isWildcardSegment = true →
    (patternMatch rx false (tokenizeUrl path) (poppedSegments (normalizeUrlComplete path))).isSome

instance decidableReadsItself (rx : RegexEngine) (path : Str) : Decidable (ReadsItself rx path) :=
  inferInstanceAs (Decidable (_ → _))

structure Classified (rx : RegexEngine) (cfg : RouteConfig) (path : Str) (idx : HttpEndpoint)
    (tier : RouteTier) : Prop where
  parsed : HttpEndpoint.make rx path false true cfg.regexChecking = .ok idx
  classified : classifyRouteTier rx idx = .ok tier
  compiles : tier.Compiles rx idx.urlComplete

namespace Classified
variable {rx : RegexEngine} {cfg : RouteConfig} {path : Str} {idx : HttpEndpoint} {tier : RouteTier}

theorem radix_iff (known : Classified rx cfg path idx tier) : tier = .radix ↔ idx.urlPars ≠ [] := by
  have classified := known.classified
  constructor
  · rintro rfl plain
    exact classifyRouteTier_plain plain classified
  · intro pars
    rw [classifyRouteTier_radix pars] at classified
    cases classified
    rfl

theorem findV2EntryByPath_sole (known : Classified rx cfg path idx tier) (entry : RouteEntry) :
    (tier.sole rx idx.urlComplete entry).findV2EntryByPath rx idx =
      if ReadsItself rx path then some entry else none := by
  obtain ⟨segments, pars⟩ := HttpEndpoint.make_segments known.parsed
  obtain ⟨complete, -, -⟩ := HttpEndpoint.make_ok known.parsed
  unfold RouteTable.findV2EntryByPath
  dsimp only
  by_cases wild : idx.urlPars ≠ []
  · have radix := known.radix_iff.mpr wild
    have compiles := known.compiles
    subst radix
    rw [if_pos wild, RouteTier.find_sole compiles, segments, complete]
    have reads : ReadsItself rx path ↔ (patternMatch rx false (tokenizeUrl path)
        (poppedSegments (normalizeUrlComplete path))).isSome := imp_iff_right (pars.mp wild)
    cases fits : patternMatch rx false (tokenizeUrl path)
        (poppedSegments (normalizeUrlComplete path)) with
    | none =>
      rw [fits] at reads
      rw [if_neg (by simp [reads])]
      rfl
    | some caps =>
      rw [fits] at reads
      rw [if_pos (by simp [reads])]
      rfl
  · have reads : ReadsItself rx path := fun some_ => absurd (pars.mpr some_) wild
    rw [if_neg wild, if_pos reads]
    cases tier with
    | radix => exact absurd (known.radix_iff.mp rfl) wild
    | exact => simp [RouteTier.sole]
    | regex re =>
      have compiled := (classifyRouteTier_regex known.classified).1
      simp [RouteTier.sole, RouteTable.empty, compiled]

variable {methods : MethodSet} {shim : Handler} {t : RouteTable}

theorem of_upserted (parsed : HttpEndpoint.make rx path false true cfg.regexChecking = .ok idx)
    (upserted : Upserted rx RouteTable.empty idx methods shim true t) :
    ∃ tier, Classified rx cfg path idx tier ∧
      t = tier.sole rx idx.urlComplete ⟨MethodSet.noMethods.union methods, shim, false⟩ := by
  have none_ : MethodSet.noMethods.union methods = methods := by
    simp [MethodSet.union, MethodSet.noMethods]
  cases upserted with
  | trie stored compiles free =>
    refine ⟨.radix, ⟨parsed, classifyRouteTier_radix stored, fun _ => compiles⟩, ?_⟩
    rw [RouteTable.inherited, RouteTable.noRoute_empty.find]
    rfl
  | exactly plain new tier free =>
    rw [none_]
    exact ⟨.exact, ⟨parsed, tier, RouteTier.noConfusion⟩, rfl⟩
  | regex re plain new tier =>
    rw [none_]
    exact ⟨.regex re, ⟨parsed, tier, RouteTier.noConfusion⟩, rfl⟩
  | update plain old => cases old

theorem upserted_sole (known : Classified rx cfg path idx tier) {entry : RouteEntry} {fresh : Bool}
    (upserted : Upserted rx (tier.sole rx idx.urlComplete entry) idx methods shim fresh t)
    (found : fresh = false → entry.handler = shim) (new : fresh = true → ¬ReadsItself rx path) :
    ∃ merged, t = tier.sole rx idx.urlComplete ⟨merged, shim, false⟩ := by
  have reads (plain : idx.urlPars = []) : ReadsItself rx path := fun wild =>
    absurd plain ((HttpEndpoint.make_segments known.parsed).2.mpr wild)
  cases upserted with
  | trie stored compiles free =>
    have radix := known.radix_iff.mpr stored
    have compiled := known.compiles radix
    subst radix
    refine ⟨(RouteTable.inherited rx (RouteTier.sole rx idx.urlComplete entry .radix)
      idx.urlComplete).union methods, ?_⟩
    simp only [RouteTier.sole, RouteTable.insertTrie, RouteTable.empty]
    rw [TrieNode.insertSegments_again _ _ compiled]
  | exactly plain isNew tier free => exact absurd (reads plain) (new isNew)
  | regex re plain isNew tier => exact absurd (reads plain) (new isNew)
  | update plain old =>
    refine ⟨entry.methods.union methods, ?_⟩
    change (ite _ _ _) = _
    cases tier with
    | radix => exact absurd plain (known.radix_iff.mp rfl)
    | exact => simp [RouteTier.sole, mergeInto]
    | regex re => simp [RouteTier.sole, RouteTable.empty, updateFirst, mergeInto, found old]

end Classified

def routeCalls (path : Str) (calls : List (MethodSet × Nat)) : List RouteCall :=
  calls.map fun call => .routeSet call.1 path (some call.2)

/-- The calls whose handlers are still there behind the last one. -/
def keptCalls (rx : RegexEngine) (path : Str) (calls : List (MethodSet × Nat)) :
    List (MethodSet × Nat) :=
  if ReadsItself rx path then calls else calls.getLast?.toList

def filledShim (calls : List (MethodSet × Nat)) : LambdaResource :=
  calls.foldl (fun shim call => shim.fill call.1 call.2) LambdaResource.fresh

def Registry.Shares (rx : RegexEngine) (idx : HttpEndpoint) (tier : RouteTier)
    (kept : List (MethodSet × Nat)) (r : Registry) : Prop :=
  ∃ methods id, r.table = tier.sole rx idx.urlComplete ⟨methods, .lambda id, false⟩ ∧
    id < r.shims.length ∧ r.shims.getD id LambdaResource.fresh = filledShim kept

section
variable {rx : RegexEngine} {cfg : RouteConfig} {path : Str} {idx : HttpEndpoint} {tier : RouteTier}

theorem keptCalls_concat (calls : List (MethodSet × Nat)) (call : MethodSet × Nat) :
    keptCalls rx path (calls ++ [call]) =
      if ReadsItself rx path then calls ++ [call] else [call] := by
  simp [keptCalls]

theorem getD_modify_new (shims : List LambdaResource) (f : LambdaResource → LambdaResource) :
    ((shims ++ [LambdaResource.fresh]).modify shims.length f).getD shims.length
      LambdaResource.fresh = f LambdaResource.fresh := by
  simp [List.getD_eq_getElem?_getD]

theorem RouteTable.NoRoute.findV2EntryByPath {t : RouteTable} (noRoute : t.NoRoute)
    (idx : HttpEndpoint) : t.findV2EntryByPath rx idx = none := by
  simp [RouteTable.findV2EntryByPath, noRoute.1, noRoute.2.1, noRoute.find]

variable {call : MethodSet × Nat} {r : Registry}

theorem shares_first (empty : r.table = RouteTable.empty)
    (ok : outcome (onMethods rx cfg call.1 path (some call.2)) r = .ok ()) :
    ∃ idx tier, Classified rx cfg path idx tier ∧
      (after (onMethods rx cfg call.1 path (some call.2)) r).Shares rx idx tier
        (keptCalls rx path [call]) := by
  obtain ⟨h, idx, id, fresh, shims, t, valid, parsed, chosen, upserted, state⟩ := onMethods_ok ok
  obtain ⟨given, -⟩ := validateOnMethodsInputs_ok valid
  cases given
  have missing : r.table.findV2EntryByPath rx idx = none := by
    rw [empty]
    exact RouteTable.noRoute_empty.findV2EntryByPath idx
  cases chosen with
  | existing id entry found => simp [missing] at found
  | new =>
    rw [empty] at upserted
    obtain ⟨tier, known, table⟩ := Classified.of_upserted parsed upserted
    have kept : keptCalls rx path [call] = [call] := by simp [keptCalls]
    refine ⟨idx, tier, known, MethodSet.noMethods.union call.1, r.shims.length, ?_, ?_, ?_⟩
    · rw [state, table]
    · simp [state]
    · rw [state, getD_modify_new, kept]
      rfl

theorem shares_next (known : Classified rx cfg path idx tier) {done : List (MethodSet × Nat)}
    (shares : r.Shares rx idx tier (keptCalls rx path done))
    (ok : outcome (onMethods rx cfg call.1 path (some call.2)) r = .ok ()) :
    (after (onMethods rx cfg call.1 path (some call.2)) r).Shares rx idx tier
      (keptCalls rx path (done ++ [call])) := by
  obtain ⟨h, idx', id', fresh, shims, t, valid, parsed, chosen, upserted, state⟩ := onMethods_ok ok
  obtain ⟨given, -⟩ := validateOnMethodsInputs_ok valid
  cases given
  rw [known.parsed] at parsed
  cases parsed
  obtain ⟨methods, id, table, inside, shim⟩ := shares
  have probe := known.findV2EntryByPath_sole ⟨methods, .lambda id, false⟩
  rw [← table] at probe
  rw [keptCalls_concat, state]
  by_cases reads : ReadsItself rx path
  · rw [if_pos reads] at probe ⊢
    cases chosen with
    | new missing => simp [missing] at probe
    | existing _ entry found lambda free =>
      rw [probe] at found
      cases found
      cases lambda
      rw [table] at upserted
      obtain ⟨merged, rfl⟩ := known.upserted_sole upserted (fun _ => rfl) Bool.noConfusion
      refine ⟨merged, id', rfl, by simpa using inside, ?_⟩
      rw [keptCalls, if_pos reads] at shim
      rw [filledShim, List.foldl_concat, ← filledShim, ← shim]
      simp [List.getD_eq_getElem?_getD, inside]
  · rw [if_neg reads] at probe ⊢
    cases chosen with
    | existing _ entry found => simp [probe] at found
    | new =>
      rw [table] at upserted
      obtain ⟨merged, rfl⟩ := known.upserted_sole upserted Bool.noConfusion fun _ => reads
      refine ⟨merged, r.shims.length, rfl, by simp, ?_⟩
      rw [getD_modify_new]
      rfl

end

namespace Server
variable {rx : RegexEngine} {cfg : RouteConfig} {path : Str}

def Accepts (rx : RegexEngine) (cfg : RouteConfig) (s : Server) (c : RouteCall) : Prop :=
  outcome (c.mutate rx cfg) s.registry = .ok ()

instance decidableAccepts (rx : RegexEngine) (cfg : RouteConfig) (s : Server) (c : RouteCall) :
    Decidable (s.Accepts rx cfg c) :=
  inferInstanceAs (Decidable (_ = _))

theorem shares_rest {idx : HttpEndpoint} {tier : RouteTier} (known : Classified rx cfg path idx tier)
    {done rest : List (MethodSet × Nat)} {s : Server}
    (shares : s.registry.Shares rx idx tier (keptCalls rx path done))
    (accepted : Within (call rx cfg) (Accepts rx cfg) s (routeCalls path rest)) :
    ((routeCalls path rest).foldl (call rx cfg) s).registry.Shares rx idx tier
      (keptCalls rx path (done ++ rest)) := by
  induction rest generalizing done s with
  | nil =>
    rw [List.append_nil]
    exact shares
  | cons next rest ih =>
    have one := shares_next known shares accepted.1
    have more := @ih (done ++ [next]) (s.call rx cfg (.routeSet next.1 path (some next.2)))
      (by rw [registry_call]; exact one) accepted.2
    rw [List.append_assoc] at more
    exact more

/-- All calls on one path leave one route, with the handlers that were kept. -/
theorem shares_calls {capacity : Nat} {positive : 0 < capacity} {calls : List (MethodSet × Nat)}
    (some_ : calls ≠ [])
    (accepted : Within (call rx cfg) (Accepts rx cfg) (fresh capacity positive)
      (routeCalls path calls)) :
    ∃ idx tier, Classified rx cfg path idx tier ∧
      ((routeCalls path calls).foldl (call rx cfg) (fresh capacity positive)).registry.Shares rx idx
        tier (keptCalls rx path calls) := by
  cases calls with
  | nil => exact absurd rfl some_
  | cons first rest =>
    obtain ⟨idx, tier, known, shares⟩ := shares_first (r := Registry.empty) rfl accepted.1
    refine ⟨idx, tier, known, ?_⟩
    refine @shares_rest rx cfg path idx tier known [first] rest
      ((fresh capacity positive).call rx cfg (.routeSet first.1 path (some first.2))) ?_ accepted.2
    rw [registry_call]
    exact shares

end Server

section
variable {calls : List (MethodSet × Nat)}

theorem hasSlot_foldl_fill (shim : LambdaResource) (m : HttpMethod) :
    (calls.foldl (fun shim call => shim.fill call.1 call.2) shim).hasSlot m =
      (shim.hasSlot m || calls.any fun call => decide (m ∈ requestedMethods call.1)) := by
  induction calls generalizing shim with
  | nil => simp
  | cons call rest ih => rw [List.foldl_cons, ih, hasSlot_fill, List.any_cons, Bool.or_assoc]

theorem hasSlot_filledShim (m : HttpMethod) :
    (filledShim calls).hasSlot m = calls.any fun call => decide (m ∈ requestedMethods call.1) := by
  have free : LambdaResource.fresh.hasSlot m = false := by cases m <;> rfl
  rw [filledShim, hasSlot_foldl_fill, free, Bool.false_or]

def MethodsApart (calls : List (MethodSet × Nat)) : Prop :=
  calls.Pairwise fun one two => ∀ m ∈ requestedMethods one.1, m ∉ requestedMethods two.1

instance decidableMethodsApart (calls : List (MethodSet × Nat)) : Decidable (MethodsApart calls) :=
  inferInstanceAs (Decidable (List.Pairwise _ _))

theorem slots_foldl_unasked (shim : LambdaResource) {m : HttpMethod}
    (unasked : ∀ call ∈ calls, m ∉ requestedMethods call.1) :
    (calls.foldl (fun shim call => shim.fill call.1 call.2) shim).slots m = shim.slots m := by
  induction calls generalizing shim with
  | nil => rfl
  | cons call rest ih =>
    rw [List.foldl_cons, ih _ fun other listed => unasked other (List.mem_cons_of_mem _ listed),
      slots_fill, if_neg (unasked call List.mem_cons_self)]

theorem slots_foldl_asked (apart : MethodsApart calls) (shim : LambdaResource) {m : HttpMethod}
    {call : MethodSet × Nat} (listed : call ∈ calls) (asked : m ∈ requestedMethods call.1) :
    (calls.foldl (fun shim call => shim.fill call.1 call.2) shim).slots m = some call.2 := by
  induction calls generalizing shim with
  | nil => cases listed
  | cons first rest ih =>
    obtain ⟨here, later⟩ := List.pairwise_cons.mp apart
    rw [List.foldl_cons]
    rcases List.mem_cons.mp listed with rfl | rest_
    · rw [slots_foldl_unasked _ fun other there => here other there m asked, slots_fill,
        if_pos asked]
    · exact ih later _ rest_

end
end HttpServer
