import HttpServer.RouteService

/-!
What a client sees of the handlers one path was given by `route`. Each method
should reach the handler of the call that asked for it, and a method no call asked
for should be refused with the methods the calls asked for. The conditions under
which this happens are read off the request, the path and the calls.
-/
namespace HttpServer
open Effect Run

def Asks (calls : List (MethodSet × Nat)) (m : HttpMethod) : Prop :=
  ∃ call ∈ calls, m ∈ requestedMethods call.1

instance decidableAsks (calls : List (MethodSet × Nat)) (m : HttpMethod) :
    Decidable (Asks calls m) :=
  inferInstanceAs (Decidable (∃ call ∈ calls, _))

def offered (calls : List (MethodSet × Nat)) : List HttpMethod :=
  allMethods.filter fun m => decide (Asks calls m)

def allowList (ms : List HttpMethod) : Str := [',', ' '].intercalate (ms.map HttpMethod.wireToken)

section
variable {calls : List (MethodSet × Nat)} {m : HttpMethod}

theorem mem_offered : m ∈ offered calls ↔ Asks calls m := by
  rw [offered, List.mem_filter, decide_eq_true_iff, and_iff_right_iff_imp]
  rintro ⟨call, -, asked⟩
  exact (List.mem_filter.mp asked).1

theorem hasSlot_iff_asks : (filledShim calls).hasSlot m = true ↔ Asks calls m := by
  rw [hasSlot_filledShim, List.any_eq_true]
  simp [Asks]

theorem formatAllowHeader_filledShim :
    formatAllowHeader (filledShim calls).methodsAllowed = allowList (offered calls) := by
  have same : (filledShim calls).methodsAllowed.contains = fun m => decide (Asks calls m) := by
    funext m
    rw [Bool.eq_iff_iff, decide_eq_true_iff]
    exact hasSlot_iff_asks
  rw [formatAllowHeader, same]
  rfl

theorem wireTokens_separate :
    ∀ m ∈ allMethods, m.wireToken ≠ [] ∧ ',' ∉ m.wireToken := by decide

theorem wireToken_inj : ∀ one two : HttpMethod, one.wireToken = two.wireToken → one = two := by
  intro one two
  cases one <;> cases two <;> decide

theorem allowList_inj {ms ns : List HttpMethod} (known : ms ⊆ allMethods) (known' : ns ⊆ allMethods)
    (same : allowList ms = allowList ns) : ms = ns := by
  have clean {ms : List HttpMethod} (known : ms ⊆ allMethods) :
      ∀ f ∈ ms.map HttpMethod.wireToken, f ≠ [] ∧ ',' ∉ f := by
    intro f listed
    obtain ⟨m, there, rfl⟩ := List.mem_map.mp listed
    exact wireTokens_separate m (known there)
  exact (List.map_inj_right wireToken_inj).mp
    (Fields.intercalate_pair_inj (by decide) (clean known) (clean known') same)

theorem offered_known : offered calls ⊆ allMethods := List.filter_subset_self _

theorem allow_ne_nil (some_ : calls ≠ [])
    (nonempty : ∀ call ∈ calls, requestedMethods call.1 ≠ []) :
    formatAllowHeader (filledShim calls).methodsAllowed ≠ [] := by
  rw [formatAllowHeader_filledShim]
  intro nothing
  obtain ⟨call, listed⟩ := List.exists_mem_of_ne_nil calls some_
  obtain ⟨m, asked⟩ := List.exists_mem_of_ne_nil _ (nonempty call listed)
  have offers : m ∈ offered calls := mem_offered.mpr ⟨call, listed, asked⟩
  rw [@allowList_inj (offered calls) [] offered_known (List.nil_subset _) nothing] at offers
  cases offers

theorem handler_unique (apart : MethodsApart calls) {one two : MethodSet × Nat} (first : one ∈ calls)
    (second : two ∈ calls) (asked : m ∈ requestedMethods one.1)
    (again : m ∈ requestedMethods two.1) : one.2 = two.2 := by
  have slot := slots_foldl_asked apart LambdaResource.fresh first asked
  rw [slots_foldl_asked apart LambdaResource.fresh second again] at slot
  exact (Option.some.inj slot).symm

end

section
variable {rx : RegexEngine} {path : Str} {calls : List (MethodSet × Nat)}

def AllKept (rx : RegexEngine) (path : Str) (calls : List (MethodSet × Nat)) : Prop :=
  ReadsItself rx path ∨ calls.length = 1

theorem keptCalls_subset : keptCalls rx path calls ⊆ calls := by
  unfold keptCalls
  split
  · exact fun _ listed => listed
  · intro call listed
    exact List.mem_of_getLast? (Option.mem_toList.mp listed)

theorem MethodsApart.keptCalls (apart : MethodsApart calls) :
    MethodsApart (keptCalls rx path calls) := by
  unfold HttpServer.keptCalls
  split
  · exact apart
  · cases calls.getLast? with
    | none => exact List.Pairwise.nil
    | some last => exact List.pairwise_singleton _ last

theorem keptCalls_ne_nil (some_ : calls ≠ []) : keptCalls rx path calls ≠ [] := by
  unfold keptCalls
  split
  · exact some_
  · rw [List.getLast?_eq_some_getLast some_]
    exact List.cons_ne_nil _ _

theorem AllKept.keptCalls (all : AllKept rx path calls) : keptCalls rx path calls = calls := by
  unfold HttpServer.keptCalls
  split
  · rfl
  · rename_i lost
    obtain ⟨call, rfl⟩ := List.length_eq_one_iff.mp (all.resolve_left lost)
    rfl

theorem asks_keptCalls_iff {m : HttpMethod} (asked : Asks calls m) :
    Asks (keptCalls rx path calls) m ↔
      AllKept rx path calls ∨ ∃ last ∈ calls.getLast?, m ∈ requestedMethods last.1 := by
  constructor
  · rintro ⟨call, listed, asks⟩
    unfold keptCalls at listed
    split at listed
    · rename_i reads
      exact Or.inl (Or.inl reads)
    · exact Or.inr ⟨call, Option.mem_toList.mp listed, asks⟩
  · rintro (all | ⟨last, there, asks⟩)
    · rw [all.keptCalls]
      exact asked
    · unfold keptCalls
      split
      · exact asked
      · exact ⟨last, Option.mem_toList.mpr there, asks⟩

theorem offered_keptCalls_iff (apart : MethodsApart calls)
    (nonempty : ∀ call ∈ calls, requestedMethods call.1 ≠ []) (some_ : calls ≠ []) :
    offered (keptCalls rx path calls) = offered calls ↔ AllKept rx path calls := by
  refine ⟨fun same => ?_, fun all => by rw [all.keptCalls]⟩
  by_cases reads : ReadsItself rx path
  · exact Or.inl reads
  refine Or.inr ?_
  obtain ⟨front, last, form⟩ := (List.eq_nil_or_concat calls).resolve_left some_
  rw [List.concat_eq_append] at form
  subst form
  cases front with
  | nil => rfl
  | cons first front =>
    -- a method of the first call would have to be one of the last call's too
    obtain ⟨m, asked⟩ := List.exists_mem_of_ne_nil _ (nonempty first (by simp))
    have all : Asks (keptCalls rx path (first :: front ++ [last])) m := by
      rw [← mem_offered, same, mem_offered]
      exact ⟨first, by simp, asked⟩
    rw [keptCalls_concat, if_neg reads] at all
    obtain ⟨call, listed, again⟩ := all
    rw [List.mem_singleton.mp listed] at again
    exact absurd again ((List.pairwise_append.mp apart).2.2 first List.mem_cons_self last
      List.mem_cons_self m asked)

theorem nonempty_of_accepted {cfg : RouteConfig} {s : Server}
    (accepted : Within (Server.call rx cfg) (Server.Accepts rx cfg) s (routeCalls path calls)) :
    ∀ call ∈ calls, requestedMethods call.1 ≠ [] := by
  induction calls generalizing s with
  | nil => simp
  | cons first rest ih =>
    obtain ⟨h, idx, id, fresh, shims, t, valid, -⟩ := onMethods_ok accepted.1
    exact List.forall_mem_cons.mpr ⟨(validateOnMethodsInputs_ok valid).2, ih accepted.2⟩

end

section
variable {rx : RegexEngine} {cfg : RouteConfig} {path : Str} {c : CanonicalPath}

/-- The path of a request matches a registered one: as a regular expression where it
    is read as one, segment by segment otherwise. -/
def Matches (rx : RegexEngine) (cfg : RouteConfig) (path : Str) (c : CanonicalPath) : Prop :=
  if cfg.regexChecking = true ∧ (tokenizeUrl path).any isWildcardSegment = false then
    ∃ idx, HttpEndpoint.make rx path false true cfg.regexChecking = .ok idx ∧
      rx.regexMatch c.text idx.urlNormalized = true
  else (patternMatch rx false (tokenizeUrl path) c.segments).isSome = true

def pathParams (rx : RegexEngine) (path : Str) (c : CanonicalPath) : Captures :=
  (patternMatch rx false (tokenizeUrl path) c.segments).getD []

def Keyed (rx : RegexEngine) (cfg : RouteConfig) (path : Str) (c : CanonicalPath) : Prop :=
  ∀ idx, HttpEndpoint.make rx path false true cfg.regexChecking = .ok idx →
    classifyRouteTier rx idx = .ok .exact → c.text = idx.urlComplete

theorem patternMatch_literal {pats segs : List Str} (literal : pats.any isWildcardSegment = false) :
    (patternMatch rx false pats segs).getD [] = [] := by
  induction pats generalizing segs with
  | nil =>
    rw [patternMatch]
    split
    · rfl
    · rfl
  | cons pat pats ih =>
    rw [List.any_cons, Bool.or_eq_false_iff] at literal
    cases segs with
    | nil => rfl
    | cons seg segs =>
      rw [patternMatch, if_neg (by simp [literal.1])]
      split
      · exact ih literal.2
      · rfl

variable {idx : HttpEndpoint} {tier : RouteTier} (known : Classified rx cfg path idx tier)
include known

theorem Classified.keyed_iff : Keyed rx cfg path c ↔ (tier = .exact → c.text = idx.urlComplete) := by
  constructor
  · rintro keyed rfl
    exact keyed idx known.parsed known.classified
  · intro exact_ idx' parsed classified
    rw [known.parsed] at parsed
    cases parsed
    rw [known.classified] at classified
    cases classified
    exact exact_ rfl

theorem Classified.literal_iff :
    (tokenizeUrl path).any isWildcardSegment = false ↔ tier ≠ .radix := by
  rw [Ne, known.radix_iff, (HttpEndpoint.make_segments known.parsed).2, Bool.not_eq_true]

theorem Classified.answers_matching (matching : Matches rx cfg path c) :
    tier.answers rx idx.urlComplete c =
      if tier = .exact → c.text = idx.urlComplete then some (pathParams rx path c) else none := by
  have literal := known.literal_iff
  unfold Matches at matching
  cases tier with
  | radix =>
    rw [if_neg (by simp [literal])] at matching
    rw [if_pos (by simp), RouteTier.answers,
      (HttpEndpoint.make_segments known.parsed).1, pathParams]
    obtain ⟨captures, fits⟩ := Option.isSome_iff_exists.mp matching
    rw [fits]
    rfl
  | exact =>
    have plain := literal.mpr RouteTier.noConfusion
    simp [RouteTier.answers, pathParams, patternMatch_literal plain]
  | regex re =>
    have plain := literal.mpr RouteTier.noConfusion
    obtain ⟨compiled, same⟩ := classifyRouteTier_regex known.classified
    rw [(HttpEndpoint.make_ok known.parsed).2.1] at compiled
    rw [if_pos ⟨compiled, plain⟩] at matching
    obtain ⟨idx', parsed, fits⟩ := matching
    rw [known.parsed] at parsed
    cases parsed
    rw [if_pos (by simp), RouteTier.answers, ← same, if_pos fits, pathParams,
      patternMatch_literal plain]

end

/-- A method some call asks for reaches the handler of that call, once, and its response
    is queued; any other method is refused with the methods the calls ask for. -/
structure Served (env : Env) (shims : List LambdaResource) (calls : List (MethodSet × Nat))
    (m : HttpMethod) (s : Session) : Prop where
  invoked : ∀ call ∈ calls, m ∈ requestedMethods call.1 → ∃ answer,
    handlerRuns shims s.history = [(call.2, answer)] ∧
      ∀ r, answer = .ok r → r.statusCode ≠ -1 → queueOf s = [queuedAs env r]
  refused : ¬Asks calls m → handlerRuns shims s.history = [] ∧ ∃ page,
    queueOf s = [queuedAs env page] ∧ page.statusCode = 405 ∧
      page.headers.lookup "Allow".toList = some (allowList (offered calls))

/-- The WebSocket check lets the request through, its path is the key where there is
    one, no handler was lost that it needs, the shim overrides its method, and
    libmicrohttpd can be given the response. -/
structure Servable (env : Env) (cfg : RouteConfig) (path : Str) (calls : List (MethodSet × Nat))
    (handle : Nat → Request → Except Exc HttpResponse) (w : WireRequest) : Prop where
  declined : upgradeAnswer env w (w.dispatched env.config) = none
  keyed : Keyed env.rx cfg path (w.target env.config)
  kept : AllKept env.rx path calls ∨ ∃ last ∈ calls.getLast?, w.verb ∈ requestedMethods last.1
  called : ∀ call ∈ calls, w.verb ∈ requestedMethods call.1 →
    w.verb ∈ LambdaResource.overridden ∧
      ∀ r, handle call.2 ((w.completed env).resolved
        (pathParams env.rx path (w.target env.config))) = .ok r →
          r.statusCode ≠ -1 → r.Sendable env
  refused : ¬Asks calls w.verb → env.creates (.string "Method not Allowed".toList) = true

section
variable {env : Env} {shims : List LambdaResource} {calls : List (MethodSet × Nat)} {m : HttpMethod}
  {s : Session}

theorem not_served (runs : handlerRuns shims s.history = [])
    (other : ¬Asks calls m → ∀ page, queueOf s = [queuedAs env page] → page.statusCode ≠ 405) :
    ¬Served env shims calls m s := by
  intro served
  by_cases asked : Asks calls m
  · obtain ⟨call, listed, asks⟩ := asked
    obtain ⟨answer, one, -⟩ := served.invoked call listed asks
    rw [runs] at one
    cases one
  · obtain ⟨-, page, queue, status, -⟩ := served.refused asked
    exact other asked page queue status

theorem Delivered.eq_or_500 {q page : HttpResponse} (delivered : Delivered env q s)
    (queue : queueOf s = [queuedAs env page]) : page = q ∨ page.statusCode = 500 := by
  by_cases sendable : q.Sendable env
  · rw [delivered.sent sendable] at queue
    exact Or.inl (queuedAs_injective (List.cons.inj queue).1).symm
  · exact Or.inr (delivered.replaced sendable page queue).2

theorem sendable_refusalPage (allowed : MethodSet) :
    (refusalPage allowed).Sendable env ↔
      env.creates (.string "Method not Allowed".toList) = true := by
  constructor
  · exact fun sendable => sendable.1
  · exact fun created => ⟨created, fun _ listed => nomatch listed⟩

theorem served_refusal_iff {kept : List (MethodSet × Nat)} (unasked : ¬Asks calls m)
    (done : Finished env shims [] (some (refusalPage (filledShim kept).methodsAllowed)) s) :
    Served env shims calls m s ↔ offered kept = offered calls ∧
      env.creates (.string "Method not Allowed".toList) = true := by
  have delivered := done.queued _ rfl
  have allow : (refusalPage (filledShim kept).methodsAllowed).headers.lookup "Allow".toList =
      some (allowList (offered kept)) := by
    rw [← formatAllowHeader_filledShim]
    rfl
  rw [← sendable_refusalPage (filledShim kept).methodsAllowed]
  constructor
  · intro served
    obtain ⟨-, page, queue, status, header⟩ := served.refused unasked
    have same : page = refusalPage (filledShim kept).methodsAllowed := by
      rcases delivered.eq_or_500 queue with same | error
      · exact same
      · rw [status] at error
        cases error
    subst same
    rw [allow] at header
    refine ⟨allowList_inj offered_known offered_known (Option.some.inj header), ?_⟩
    by_contra lost
    exact (delivered.replaced lost _ queue).1 rfl
  · rintro ⟨same, sendable⟩
    refine ⟨fun call listed asks => absurd ⟨call, listed, asks⟩ unasked, fun _ => ⟨done.ran, ?_⟩⟩
    exact ⟨_, delivered.sent sendable, rfl, by rw [allow, same]⟩

theorem served_run_iff (apart : MethodsApart calls) {call : MethodSet × Nat} (listed : call ∈ calls)
    (asks : m ∈ requestedMethods call.1) {answer : Except Exc HttpResponse}
    (done : Finished env shims [(call.2, answer)] (readyResponse answer) s) :
    Served env shims calls m s ↔ ∀ r, answer = .ok r → r.statusCode ≠ -1 → r.Sendable env := by
  have asked : Asks calls m := ⟨call, listed, asks⟩
  constructor
  · intro served r ok status
    obtain ⟨answer', one, queued⟩ := served.invoked call listed asks
    rw [done.ran] at one
    cases one
    by_contra lost
    exact ((done.queued r (mem_readyResponse.mpr ⟨ok, status⟩)).replaced lost r
      (queued r ok status)).1 rfl
  · intro sendable
    refine ⟨fun other there asks' => ⟨answer, ?_, fun r ok status => ?_⟩,
      fun unasked => absurd asked unasked⟩
    · rw [done.ran, handler_unique apart listed there asks asks']
    · exact (done.queued r (mem_readyResponse.mpr ⟨ok, status⟩)).sent (sendable r ok status)

end

section
variable {env : Env} {cfg : RouteConfig} {path : Str} {calls : List (MethodSet × Nat)}
  {handle : Nat → Request → Except Exc HttpResponse} {w : WireRequest}

section
variable {shims : List LambdaResource} {s : Session} (apart : MethodsApart calls)
  (declined : upgradeAnswer env w (w.dispatched env.config) = none)
  (keyed : Keyed env.rx cfg path (w.target env.config))
include apart declined keyed

theorem served_held_iff {call : MethodSet × Nat} (there : call ∈ keptCalls env.rx path calls)
    (asks : w.verb ∈ requestedMethods call.1) {req : Request}
    (dispatched : req = (w.completed env).resolved
      (pathParams env.rx path (w.target env.config)))
    (done : Finished env shims
      ((filledShim (keptCalls env.rx path calls)).ran handle w.verb req)
      (readyResponse ((filledShim (keptCalls env.rx path calls)).render handle w.verb req)) s) :
    Served env shims calls w.verb s ↔ Servable env cfg path calls handle w := by
  have listed := keptCalls_subset there
  have asked : Asks calls w.verb := ⟨call, listed, asks⟩
  have kept := (asks_keptCalls_iff asked).mp ⟨call, there, asks⟩
  by_cases run : w.verb ∈ LambdaResource.overridden
  · have slot : (filledShim (keptCalls env.rx path calls)).slots w.verb = some call.2 :=
      slots_foldl_asked apart.keptCalls LambdaResource.fresh there asks
    have runs : (filledShim (keptCalls env.rx path calls)).runs w.verb = some call.2 := by
      rw [LambdaResource.runs, if_pos run, slot]
    simp only [LambdaResource.ran, runs, Option.toList_some, List.map_cons, List.map_nil,
      LambdaResource.render_of_runs runs] at done
    rw [served_run_iff apart listed asks done, dispatched]
    constructor
    · intro sendable
      refine ⟨declined, keyed, kept, fun other here again => ⟨run, ?_⟩,
        fun unasked => absurd asked unasked⟩
      rw [handler_unique apart here listed again asks]
      exact sendable
    · exact fun servable => (servable.called call listed asks).2
  · -- CONNECT and TRACE: the slot is filled and the inherited function does not read it
    have runs : (filledShim (keptCalls env.rx path calls)).runs w.verb = none := if_neg run
    simp only [LambdaResource.ran, runs, Option.toList_none, List.map_nil] at done
    exact iff_of_false (not_served done.ran fun unasked => absurd asked unasked)
      fun servable => run (servable.called call listed asks).1

theorem served_refused_iff (some_ : calls ≠ [])
    (nonempty : ∀ call ∈ calls, requestedMethods call.1 ≠ [])
    (missing : ¬Asks (keptCalls env.rx path calls) w.verb)
    (done : Finished env shims []
      (some (refusalPage (filledShim (keptCalls env.rx path calls)).methodsAllowed)) s) :
    Served env shims calls w.verb s ↔ Servable env cfg path calls handle w := by
  by_cases asked : Asks calls w.verb
  · -- the handler was there and was lost to a later call
    exact iff_of_false (not_served done.ran fun unasked => absurd asked unasked) fun servable =>
      missing ((asks_keptCalls_iff asked).mpr servable.kept)
  · rw [served_refusal_iff asked done, offered_keptCalls_iff apart nonempty some_]
    constructor
    · rintro ⟨all, created⟩
      exact ⟨declined, keyed, Or.inl all,
        fun call listed asks => absurd ⟨call, listed, asks⟩ asked, fun _ => created⟩
    · intro servable
      refine ⟨servable.kept.resolve_right ?_, servable.refused asked⟩
      rintro ⟨last, there, asks⟩
      exact asked ⟨last, List.mem_of_getLast? there, asks⟩

end

/-- The methods of all calls are served when the request meets the conditions, and only
    then. -/
theorem routed_methods_served_iff {capacity : Nat} {positive : 0 < capacity} (some_ : calls ≠ [])
    (accepted : Within (Server.call env.rx cfg) (Server.Accepts env.rx cfg)
      (Server.fresh capacity positive) (routeCalls path calls))
    (apart : MethodsApart calls)
    (serves : env.Serves ((routeCalls path calls).foldl (Server.call env.rx cfg)
      (Server.fresh capacity positive)).registry handle)
    (matching : Matches env.rx cfg path (w.target env.config)) :
    Served env ((routeCalls path calls).foldl (Server.call env.rx cfg)
        (Server.fresh capacity positive)).registry.shims calls w.verb (after (serve env w) {}) ↔
      Servable env cfg path calls handle w := by
  obtain ⟨idx, tier, known, methods, id, table, -, shim⟩ := Server.shares_calls some_ accepted
  have nonempty := nonempty_of_accepted accepted
  have header := allow_ne_nil (keptCalls_ne_nil some_) fun call there =>
    nonempty call (@keptCalls_subset env.rx path calls call there)
  cases upgrade : upgradeAnswer env w (w.dispatched env.config) with
  | some what =>
    obtain ⟨runs, queue⟩ := upgraded_request serves upgrade
    refine iff_of_false (not_served runs fun _ page queued => ?_) fun servable => ?_
    · obtain ⟨digest, form⟩ := queuedAs_response env page
      rw [queue, form] at queued
      exact absurd (List.cons.inj queued).1 (upgradeAnswer_not_response upgrade page digest)
    · rw [servable.declined] at upgrade
      cases upgrade
  | none =>
    have done := routed_request serves table known.compiles upgrade shim header
    rw [known.answers_matching matching] at done
    by_cases keyed : tier = .exact → (w.target env.config).text = idx.urlComplete
    · rw [if_pos keyed, Option.elim_some, LambdaResource.leaves] at done
      have key := known.keyed_iff.mpr keyed
      by_cases held : Asks (keptCalls env.rx path calls) w.verb
      · rw [if_pos (hasSlot_iff_asks.mpr held)] at done
        obtain ⟨call, there, asks⟩ := held
        exact served_held_iff apart upgrade key there asks rfl done
      · rw [if_neg (fun slot => held (hasSlot_iff_asks.mp slot))] at done
        exact served_refused_iff apart upgrade key some_ nonempty held done
    · rw [if_neg keyed] at done
      refine iff_of_false (not_served done.ran fun _ page queued => ?_) fun servable =>
        keyed (known.keyed_iff.mp servable.keyed)
      rcases (done.queued _ rfl).eq_or_500 queued with rfl | error
      · decide
      · rw [error]
        decide

end

def allowedMethods (mask : MethodSet) : AllowedMethods :=
  if free : mask.contains .count_ = false then ⟨mask, free⟩ else .all

def Env.ofServer (rx : RegexEngine) (s : Server) (handle : Nat → Request → Except Exc HttpResponse) :
    Env :=
  { Env.quiet {} with
    rx := rx
    routes := s.registry.table
    cache := s.cache
    allowedAt := fun _ resource =>
      match resource with
      | .lambda id => allowedMethods (s.registry.shims.getD id LambdaResource.fresh).methodsAllowed
      | .resource _ => .all
    answer := fun _ call =>
      match call with
      | .render (.lambda id) m req =>
        (s.registry.shims.getD id LambdaResource.fresh).render handle m req
      | call => quietAnswer call }

theorem serves_ofServer {rx : RegexEngine} {s : Server}
    (handle : Nat → Request → Except Exc HttpResponse)
    (free : ∀ shim ∈ s.registry.shims, shim.methodsAllowed.contains .count_ = false)
    (cache : s.cache.Holds (RouteTable.Fresh rx s.registry.table)) :
    (Env.ofServer rx s handle).Serves s.registry handle where
  hookless := ⟨fun _ => rfl, rfl, rfl, rfl, rfl, rfl⟩
  routes := rfl
  cache := cache
  allowed h id := by
    have known : (s.registry.shims.getD id LambdaResource.fresh).methodsAllowed.contains .count_ =
        false := by
      rw [List.getD_eq_getElem?_getD]
      cases here : s.registry.shims[id]? with
      | none => rfl
      | some shim => exact free shim (List.mem_of_getElem? here)
    change (allowedMethods _).mask = _
    rw [allowedMethods, dif_pos known]
  renders _ _ _ _ _ := rfl

def statusOf (h : Nat) (_ : Request) : Except Exc HttpResponse := .ok (.page [] (200 + h))

def itemCalls : List (MethodSet × Nat) :=
  [(MethodSet.noMethods.set .get, 1), (MethodSet.noMethods.set .put |>.set .patch, 2)]

def itemServer : Server :=
  (routeCalls "/item/{id}".toList itemCalls).foldl (Server.call Server.literalEngine ⟨false, true⟩)
    (Server.fresh 1 Nat.one_pos)

def itemEnv : Env := .ofServer Server.literalEngine itemServer statusOf

def itemRequest (method : Str) : WireRequest :=
  { plainRequest with url := "/item/7".toList, method := method }

theorem item_methods_served :
    Served itemEnv itemServer.registry.shims itemCalls .patch
        (after (serve itemEnv (itemRequest "PATCH".toList)) {}) ∧
      Served itemEnv itemServer.registry.shims itemCalls .del
        (after (serve itemEnv (itemRequest "DELETE".toList)) {}) := by
  have serves : itemEnv.Serves itemServer.registry statusOf :=
    serves_ofServer statusOf (by decide +kernel) LruCache.Lru.holds_clear
  have keyed (c : CanonicalPath) :
      Keyed Server.literalEngine ⟨false, true⟩ "/item/{id}".toList c := by
    intro idx parsed classified
    have wild := (HttpEndpoint.make_segments parsed).2.mpr (by decide)
    rw [classifyRouteTier_radix wild] at classified
    cases classified
  have kept : AllKept Server.literalEngine "/item/{id}".toList itemCalls := Or.inl (by decide)
  have served (w : WireRequest)
      (item : (w.target itemEnv.config).segments = ["item".toList, "7".toList])
      (declined : upgradeAnswer itemEnv w (w.dispatched itemEnv.config) = none)
      (run : w.verb ∈ LambdaResource.overridden) :
      Served itemEnv itemServer.registry.shims itemCalls w.verb (after (serve itemEnv w) {}) := by
    have matching : Matches itemEnv.rx ⟨false, true⟩ "/item/{id}".toList
        (w.target itemEnv.config) := by
      rw [Matches, if_neg (by decide), item]
      rfl
    refine (routed_methods_served_iff (by decide) (by decide +kernel) (by decide) serves
      matching).mpr ⟨declined, keyed _, Or.inl kept, fun call _ _ => ⟨run, ?_⟩, fun _ => rfl⟩
    rintro r same -
    cases same
    exact ⟨rfl, fun _ listed => nomatch listed⟩
  exact ⟨served (itemRequest "PATCH".toList) rfl rfl (by decide),
    served (itemRequest "DELETE".toList) rfl rfl (by decide)⟩

def tunnelCalls : List (MethodSet × Nat) :=
  [(MethodSet.noMethods.set .get |>.set .connect |>.set .trace, 1)]

def tunnelServer : Server :=
  (routeCalls "/a".toList tunnelCalls).foldl (Server.call Server.charEngine ⟨false, true⟩)
    (Server.fresh 1 Nat.one_pos)

def tunnelEnv : Env := .ofServer Server.charEngine tunnelServer statusOf

/-- The handler is accepted for both methods and kept, and it is never run: the client
    is given a 500 page. -/
theorem connect_and_trace_handlers_never_run :
    Within (Server.call Server.charEngine ⟨false, true⟩)
        (Server.Accepts Server.charEngine ⟨false, true⟩) (Server.fresh 1 Nat.one_pos)
        (routeCalls "/a".toList tunnelCalls) ∧
      MethodsApart tunnelCalls ∧ tunnelEnv.Serves tunnelServer.registry statusOf ∧
      tunnelServer.registry.shims.map (fun shim => (shim.slots .connect, shim.slots .trace)) =
        [(some 1, some 1)] ∧
      ∀ m ∈ [HttpMethod.connect, .trace],
        let w := { plainRequest with method := m.wireToken }
        let s := after (serve tunnelEnv w) {}
        w.verb = m ∧ Matches Server.charEngine ⟨false, true⟩ "/a".toList (w.target {}) ∧
          handlerRuns tunnelServer.registry.shims s.history = [] ∧
          (∃ page, queueOf s = [queuedAs tunnelEnv page] ∧ page.statusCode = 500) ∧
          ¬Served tunnelEnv tunnelServer.registry.shims tunnelCalls m s := by
  refine ⟨by decide +kernel, by decide,
    serves_ofServer statusOf (by decide +kernel) LruCache.Lru.holds_clear, rfl, ?_⟩
  have matching : Matches Server.charEngine ⟨false, true⟩ "/a".toList
      (plainRequest.target {}) := by
    rw [Matches, if_pos (by decide)]
    exact ⟨_, rfl, rfl⟩
  rw [List.forall_mem_cons, List.forall_mem_singleton]
  refine ⟨⟨rfl, matching, rfl, ⟨_, rfl, rfl⟩, ?_⟩, rfl, matching, rfl, ⟨_, rfl, rfl⟩, ?_⟩
  · exact not_served rfl fun unasked => absurd (by decide) unasked
  · exact not_served rfl fun unasked => absurd (by decide) unasked

end HttpServer
