import HttpServer.Registration

/-!
Lookups and registration calls of any number of threads, interleaved at the
lock boundaries. A call is a table mutation followed, when it did not throw, by
a cache clear; a lookup is an exact probe, a cache probe, a walk and a cache
insert. The tables the server went through are kept as a history variable, so
that a lookup's answer can be compared with every table of its lifetime.
-/
namespace HttpServer.Concurrency
open Effect LruCache Run HttpServer.RouteTable

structure InFlight where
  method : HttpMethod
  path : Str
  started : Nat
  deriving DecidableEq, Repr

/-- How far a lookup has come: the last step it completed. -/
inductive Progress where
  | begun
  | missedExact
  | missedCache
  | walked (result : LookupResult)
  deriving DecidableEq, Repr

inductive Activity where
  | idle
  | clearing
  | lookup (l : InFlight) (progress : Progress)
  deriving DecidableEq, Repr

structure Served where
  path : Str
  started : Nat
  ended : Nat
  result : Option LookupResult
  deriving DecidableEq, Repr

structure State where
  server : Server
  threads : List Activity
  now : Nat
  tableAt : Nat → RouteTable
  history : List Served

inductive Step where
  | mutate (tid : Nat) (c : RouteCall)
  | clear (tid : Nat)
  | begin (tid : Nat) (method : HttpMethod) (path : Str)
  | advance (tid : Nat)

def InFlight.key (l : InFlight) : CacheKey := ⟨l.method, canonicalizeLookupPath l.path⟩

namespace State

def initial (threads capacity : Nat) (positive : 0 < capacity) : State where
  server := Server.fresh capacity positive
  threads := List.replicate threads .idle
  now := 0
  tableAt := fun _ => RouteTable.empty
  history := []

def setThread (s : State) (tid : Nat) (a : Activity) : State :=
  { s with threads := s.threads.set tid a }

def setCache (s : State) (cache : RouteCache) : State :=
  { s with server := { s.server with cache := cache } }

def finish (s : State) (tid : Nat) (l : InFlight) (result : Option LookupResult) : State :=
  { s.setThread tid .idle with history := s.history ++ [⟨l.path, l.started, s.now, result⟩] }

def setRegistry (s : State) (registry : Registry) : State :=
  { s with
    server := { s.server with registry := registry }
    now := s.now + 1
    tableAt := Function.update s.tableAt (s.now + 1) registry.table }

def table (s : State) : RouteTable := s.server.registry.table

def mutate (rx : RegexEngine) (cfg : RouteConfig) (s : State) (tid : Nat) (c : RouteCall) :
    State :=
  let registry := after (c.mutate rx cfg) s.server.registry
  match outcome (c.mutate rx cfg) s.server.registry with
  | .ok _ => (s.setRegistry registry).setThread tid .clearing
  | .error _ => s.setRegistry registry

def advance (rx : RegexEngine) (s : State) (tid : Nat) (l : InFlight) : Progress → State
  | .begun =>
    match s.table.probeExact l.key.path with
    | some entry => s.finish tid l (some ⟨.exact, entry, []⟩)
    | none => s.setThread tid (.lookup l .missedExact)
  | .missedExact =>
    let probed := s.server.cache.find l.key
    match probed.2 with
    | some v => (s.setCache probed.1).finish tid l (some ⟨.cache, v.entry, v.capturedParams⟩)
    | none => (s.setCache probed.1).setThread tid (.lookup l .missedCache)
  | .missedCache =>
    match s.table.walkTiers rx l.key.path with
    | some r => s.setThread tid (.lookup l (.walked r))
    | none => s.finish tid l none
  | .walked r =>
    (s.setCache (s.server.cache.insert l.key ⟨r.entry, r.capturedParams⟩)).finish tid l (some r)

def step (rx : RegexEngine) (cfg : RouteConfig) (s : State) : Step → State
  | .mutate tid c => if s.threads[tid]? = some .idle then s.mutate rx cfg tid c else s
  | .clear tid =>
    if s.threads[tid]? = some .clearing then
      (s.setCache s.server.cache.clear).setThread tid .idle
    else s
  | .begin tid method path =>
    if s.threads[tid]? = some .idle then
      s.setThread tid (.lookup ⟨method, path, s.now⟩ .begun)
    else s
  | .advance tid =>
    match s.threads[tid]? with
    | some (.lookup l progress) => s.advance rx tid l progress
    | _ => s

end State

def Activity.passedExact : Activity → Option InFlight
  | .lookup l .missedExact => some l
  | .lookup l .missedCache => some l
  | _ => none

/-- A cache probe does not hit while a call has its clear still to come. What a
    cache insert stores is still what the table gives, or a clear is still to
    come. -/
def OrderlyNext (rx : RegexEngine) (s : State) : Activity → Prop
  | .lookup l .missedExact =>
    Activity.clearing ∉ s.threads ∨ (s.server.cache.find l.key).2 = none
  | .lookup l (.walked r) =>
    Activity.clearing ∈ s.threads ∨
      (s.table.walkTiers rx l.key.path).map answer = some (answer r)
  | _ => True

/-- A mutation is no registration failing on an invalid regex and gives no exact
    entry to the path of a lookup between its exact probe and its walk. -/
def Orderly (rx : RegexEngine) (cfg : RouteConfig) (s : State) : Step → Prop
  | .mutate _ c =>
    s.server.failsOnRegex rx cfg c = false ∧
      ∀ a ∈ s.threads, ∀ l ∈ a.passedExact,
        (after (c.mutate rx cfg) s.server.registry).table.probeExact l.key.path = none
  | .advance tid => ∀ a ∈ s.threads[tid]?, OrderlyNext rx s a
  | _ => True

instance (rx : RegexEngine) (s : State) (a : Activity) : Decidable (OrderlyNext rx s a) :=
  match a with
  | .idle | .clearing | .lookup _ .begun | .lookup _ .missedCache => isTrue trivial
  | .lookup l .missedExact => inferInstanceAs (Decidable
      (Activity.clearing ∉ s.threads ∨ (s.server.cache.find l.key).2 = none))
  | .lookup l (.walked r) => inferInstanceAs (Decidable (Activity.clearing ∈ s.threads ∨
      (s.table.walkTiers rx l.key.path).map answer = some (answer r)))

instance (rx : RegexEngine) (cfg : RouteConfig) (s : State) (a : Step) :
    Decidable (Orderly rx cfg s a) :=
  match a with
  | .mutate _ c => inferInstanceAs (Decidable (s.server.failsOnRegex rx cfg c = false ∧
      ∀ a ∈ s.threads, ∀ l ∈ a.passedExact,
        (after (c.mutate rx cfg) s.server.registry).table.probeExact l.key.path = none))
  | .advance tid => inferInstanceAs (Decidable (∀ a ∈ s.threads[tid]?, OrderlyNext rx s a))
  | .clear _ | .begin _ _ _ => isTrue trivial

def AnsweredBetween (rx : RegexEngine) (tableAt : Nat → RouteTable) (start stop : Nat)
    (path : Str) (result : Option (RouteEntry × Captures)) : Prop :=
  ∃ i, start ≤ i ∧ i ≤ stop ∧ (tableAt i).coldLookup rx path = result

def ThreadOk (rx : RegexEngine) (s : State) : Activity → Prop
  | .lookup l progress =>
    l.started ≤ s.now ∧
      match progress with
      | .begun => True
      | .missedExact | .missedCache => s.table.probeExact l.key.path = none
      | .walked r => AnsweredBetween rx s.tableAt l.started s.now l.path (some (answer r))
  | _ => True

def Served.Linearizable (rx : RegexEngine) (tableAt : Nat → RouteTable) (h : Served) : Prop :=
  AnsweredBetween rx tableAt h.started h.ended h.path (h.result.map answer)

structure Inv (rx : RegexEngine) (s : State) : Prop where
  current : s.tableAt s.now = s.table
  cached : Activity.clearing ∈ s.threads ∨ s.server.cache.Holds (Fresh rx s.table)
  threads : ∀ a ∈ s.threads, ThreadOk rx s a
  served : ∀ h ∈ s.history, h.ended ≤ s.now ∧ h.Linearizable rx s.tableAt

theorem mem_set_of_ne {α : Type} {l : List α} {i : Nat} {a b c : α} (member : a ∈ l)
    (at_i : l[i]? = some b) (other : a ≠ b) : a ∈ l.set i c := by
  obtain ⟨j, at_j⟩ := List.mem_iff_getElem?.mp member
  have different : i ≠ j := by
    intro same
    rw [same, at_j] at at_i
    exact other (Option.some.inj at_i)
  apply List.mem_of_getElem? (i := j)
  rw [List.getElem?_set_ne different]
  exact at_j

section
variable {rx : RegexEngine} {cfg : RouteConfig} {s : State} {tid : Nat} {l : InFlight}

theorem coldLookup_of_miss {t : RouteTable} (miss : t.probeExact l.key.path = none) :
    t.coldLookup rx l.path = (t.walkTiers rx l.key.path).map answer := by
  simp only [InFlight.key] at miss ⊢
  simp [coldLookup, miss]

variable {result : Option (RouteEntry × Captures)} {a : Activity} {cache : RouteCache}
  {progress : Progress}

theorem answered_now (current : s.tableAt s.now = s.table) (started : l.started ≤ s.now)
    (cold : s.table.coldLookup rx l.path = result) :
    AnsweredBetween rx s.tableAt l.started s.now l.path result := by
  refine ⟨s.now, started, Nat.le_refl _, ?_⟩
  rw [current]
  exact cold

theorem Inv.move {b : Activity} (inv : Inv rx s) (was : s.threads[tid]? = some a)
    (reader : a ≠ .clearing) (ok : ThreadOk rx s b)
    (cached : s.server.cache.Holds (Fresh rx s.table) ∨ Activity.clearing ∈ s.threads →
      cache.Holds (Fresh rx s.table) ∨ Activity.clearing ∈ s.threads) :
    Inv rx ((s.setCache cache).setThread tid b) where
  current := inv.current
  cached := by
    rcases cached inv.cached.symm with fresh | pending
    · exact Or.inr fresh
    · exact Or.inl (mem_set_of_ne pending was reader.symm)
  threads := by
    intro x member
    rcases List.mem_or_eq_of_mem_set member with old | rfl
    · exact inv.threads x old
    · exact ok
  served := inv.served

theorem Inv.finish {result : Option LookupResult} (inv : Inv rx s)
    (was : s.threads[tid]? = some (.lookup l progress))
    (cached : s.server.cache.Holds (Fresh rx s.table) ∨ Activity.clearing ∈ s.threads →
      cache.Holds (Fresh rx s.table) ∨ Activity.clearing ∈ s.threads)
    (answered : AnsweredBetween rx s.tableAt l.started s.now l.path (result.map answer)) :
    Inv rx ((s.setCache cache).finish tid l result) := by
  have moved : Inv rx ((s.setCache cache).setThread tid .idle) :=
    inv.move was (by simp) trivial cached
  refine ⟨moved.current, moved.cached, moved.threads, ?_⟩
  intro h member
  rcases List.mem_append.mp member with old | new
  · exact inv.served h old
  · rw [List.mem_singleton.mp new]
    exact ⟨Nat.le_refl _, answered⟩

theorem Inv.advance (inv : Inv rx s) (was : s.threads[tid]? = some (.lookup l progress))
    (orderly : OrderlyNext rx s (.lookup l progress)) : Inv rx (s.advance rx tid l progress) := by
  obtain ⟨started, facts⟩ := inv.threads _ (List.mem_of_getElem? was)
  cases progress with
  | begun =>
    dsimp only [State.advance]
    cases probe : s.table.probeExact l.key.path with
    | some entry =>
      refine inv.finish was id (answered_now inv.current started ?_)
      simp only [InFlight.key] at probe
      simp [coldLookup, probe, answer]
    | none => exact inv.move was (by simp) ⟨started, probe⟩ id
  | missedExact =>
    dsimp only [State.advance]
    have kept : s.server.cache.Holds (Fresh rx s.table) ∨ Activity.clearing ∈ s.threads →
        (s.server.cache.find l.key).1.Holds (Fresh rx s.table) ∨
          Activity.clearing ∈ s.threads := Or.imp_left Lru.holds_find
    cases probe : (s.server.cache.find l.key).2 with
    | none => exact inv.move was (by simp) ⟨started, facts⟩ kept
    | some v =>
      have quiet : Activity.clearing ∉ s.threads := by
        rcases orderly with quiet | miss
        · exact quiet
        · rw [probe] at miss
          cases miss
      have stored : Fresh rx s.table l.key v :=
        Lru.find_sound (inv.cached.resolve_left quiet) probe
      refine inv.finish was kept (answered_now inv.current started ?_)
      rw [coldLookup_of_miss facts]
      exact stored
  | missedCache =>
    dsimp only [State.advance]
    have cold : s.table.coldLookup rx l.path = (s.table.walkTiers rx l.key.path).map answer :=
      coldLookup_of_miss facts
    cases walk : s.table.walkTiers rx l.key.path with
    | some r =>
      refine inv.move was (by simp) ⟨started, answered_now inv.current started ?_⟩ id
      rw [cold, walk, Option.map_some]
    | none =>
      refine inv.finish was id (answered_now inv.current started ?_)
      rw [cold, walk]
  | walked r =>
    refine inv.finish was ?_ facts
    intro fresh
    rcases orderly with pending | still
    · exact Or.inr pending
    · exact fresh.imp_left fun all => Lru.holds_insert all still

theorem answeredBetween_setRegistry (registry : Registry) {start stop : Nat} {path : Str}
    (bound : stop ≤ s.now) (before : AnsweredBetween rx s.tableAt start stop path result) :
    AnsweredBetween rx (s.setRegistry registry).tableAt start stop path result := by
  obtain ⟨i, low, high, cold⟩ := before
  refine ⟨i, low, high, ?_⟩
  have old : i ≠ s.now + 1 := by omega
  simpa [State.setRegistry, Function.update_of_ne old] using cold

theorem threadOk_setRegistry {registry : Registry} (ok : ThreadOk rx s a)
    (missing : ∀ l ∈ a.passedExact, registry.table.probeExact l.key.path = none) :
    ThreadOk rx (s.setRegistry registry) a := by
  cases a with
  | idle => trivial
  | clearing => trivial
  | lookup l progress =>
    obtain ⟨started, facts⟩ := ok
    refine ⟨Nat.le_succ_of_le started, ?_⟩
    cases progress with
    | begun => trivial
    | missedExact => exact missing l rfl
    | missedCache => exact missing l rfl
    | walked r =>
      obtain ⟨i, low, high, cold⟩ := answeredBetween_setRegistry registry
        (Nat.le_refl _) facts
      exact ⟨i, low, Nat.le_succ_of_le high, cold⟩

theorem Inv.mutate {c : RouteCall} (inv : Inv rx s) (was : s.threads[tid]? = some .idle)
    (orderly : Orderly rx cfg s (.mutate tid c)) : Inv rx (s.mutate rx cfg tid c) := by
  obtain ⟨valid, missing⟩ := orderly
  have threads : ∀ a ∈ s.threads,
      ThreadOk rx (s.setRegistry (after (c.mutate rx cfg) s.server.registry)) a :=
    fun a member => threadOk_setRegistry (inv.threads a member) (missing a member)
  have current : (s.setRegistry (after (c.mutate rx cfg) s.server.registry)).tableAt (s.now + 1) =
      (after (c.mutate rx cfg) s.server.registry).table := by
    simp [State.setRegistry]
  have served : ∀ h ∈ s.history, h.ended ≤ s.now + 1 ∧ h.Linearizable rx
      (s.setRegistry (after (c.mutate rx cfg) s.server.registry)).tableAt := by
    intro h member
    obtain ⟨ended, linear⟩ := inv.served h member
    exact ⟨Nat.le_succ_of_le ended, answeredBetween_setRegistry _ ended linear⟩
  unfold State.mutate
  cases result : outcome (c.mutate rx cfg) s.server.registry with
  | ok _ =>
    refine ⟨current, Or.inl ?_, ?_, served⟩
    · have bound : tid < s.threads.length := (List.getElem?_eq_some_iff.mp was).1
      exact List.mem_set bound _
    · intro a member
      rcases List.mem_or_eq_of_mem_set member with old | rfl
      · exact threads a old
      · trivial
  | error e =>
    refine ⟨current, ?_, threads, served⟩
    have same : SameTable s.server.registry (after (c.mutate rx cfg) s.server.registry) := by
      rcases failsClean_mutate rx cfg c s.server.registry e result with excused | clean
      · simp [Server.failsOnRegex, result, excused] at valid
      · exact clean
    refine inv.cached.imp_right fun fresh => ?_
    have table : (s.setRegistry (after (c.mutate rx cfg) s.server.registry)).table = s.table :=
      same.symm
    rw [table]
    exact fresh

theorem Inv.clear (inv : Inv rx s) :
    Inv rx ((s.setCache s.server.cache.clear).setThread tid .idle) := by
  refine ⟨inv.current, Or.inr Lru.holds_clear, ?_, inv.served⟩
  intro a member
  rcases List.mem_or_eq_of_mem_set member with old | rfl
  · exact inv.threads a old
  · trivial

theorem step_inv (s : State) (a : Step) (inv : Inv rx s) (orderly : Orderly rx cfg s a) :
    Inv rx (s.step rx cfg a) := by
  cases a with
  | mutate tid c =>
    dsimp only [State.step]
    split
    · rename_i was
      exact inv.mutate was orderly
    · exact inv
  | clear tid =>
    dsimp only [State.step]
    split
    · exact inv.clear
    · exact inv
  | begin tid method path =>
    dsimp only [State.step]
    split
    · rename_i was
      exact inv.move was (by simp) ⟨Nat.le_refl _, trivial⟩ id
    · exact inv
  | advance tid =>
    dsimp only [State.step]
    split
    · rename_i l progress was
      exact inv.advance was (orderly _ was)
    · exact inv

theorem initial_inv (threads capacity : Nat) (positive : 0 < capacity) :
    Inv rx (State.initial threads capacity positive) where
  current := rfl
  cached := Or.inr (Lru.holds_empty capacity positive)
  threads := by
    intro a member
    rw [List.eq_of_mem_replicate member]
    trivial
  served := by
    intro h member
    cases member

end

/-- In a run of orderly steps every lookup gives the answer of a table of its
    own lifetime, and so no entry that all of those tables have lost. -/
theorem lookups_linearizable (rx : RegexEngine) (cfg : RouteConfig)
    (threads capacity : Nat) (positive : 0 < capacity) (steps : List Step)
    (orderly : Within (State.step rx cfg) (Orderly rx cfg)
      (State.initial threads capacity positive) steps) :
    let s := steps.foldl (State.step rx cfg) (State.initial threads capacity positive)
    ∀ h ∈ s.history,
      (∃ i, h.started ≤ i ∧ i ≤ h.ended ∧
        (s.tableAt i).coldLookup rx h.path = h.result.map answer) ∧
      ∀ entry, (∀ i, h.started ≤ i → i ≤ h.ended → ∀ captures,
          (s.tableAt i).coldLookup rx h.path ≠ some (entry, captures)) →
        ∀ r ∈ h.result, r.entry ≠ entry := by
  intro s h member
  have inv : Inv rx s := Run.invariant step_inv (initial_inv threads capacity positive) orderly
  obtain ⟨i, low, high, cold⟩ := (inv.served h member).2
  refine ⟨⟨i, low, high, cold⟩, ?_⟩
  intro entry gone r result same
  apply gone i low high r.capturedParams
  rw [cold, Option.mem_def.mp result, ← same]
  rfl

/-- Thread 0 walks while the prefix route is there and inserts after thread 1
    has unregistered it and cleared the cache. -/
def lateInsertRun : List Step :=
  [.mutate 1 (.registerPrefix "/a".toList (some 1)), .clear 1,
   .begin 0 .get "/a/x".toList, .advance 0, .advance 0, .advance 0,
   .mutate 1 (.unregisterPrefix "/a".toList), .clear 1,
   .advance 0,
   .begin 2 .get "/a/x".toList, .advance 2, .advance 2]

def afterLateInsert : State :=
  lateInsertRun.foldl (State.step Server.literalEngine ⟨false, false⟩)
    (State.initial 3 256 (by decide))

theorem late_insert_serves_unregistered_entry :
    ∃ h ∈ afterLateInsert.history, h.started = 2 ∧ h.ended = 2 ∧
      h.result.map answer = some (⟨.setAll, .resource 1, true⟩, []) ∧
      (afterLateInsert.tableAt 2).coldLookup Server.literalEngine h.path = none := by
  refine ⟨⟨"/a/x".toList, 2, 2, some ⟨.cache, ⟨.setAll, .resource 1, true⟩, []⟩⟩, ?_, ?_⟩
  · decide
  · decide

def quietRun : List Step :=
  [.mutate 1 (.registerPrefix "/a".toList (some 1)), .clear 1,
   .begin 0 .get "/a/x".toList, .begin 2 .get "/a/x".toList,
   .advance 0, .advance 0, .advance 0, .advance 0, .advance 2, .advance 2,
   .mutate 1 (.unregisterPrefix "/a".toList), .clear 1]

def afterQuietRun : State :=
  quietRun.foldl (State.step Server.literalEngine ⟨false, false⟩)
    (State.initial 3 256 (by decide))

theorem lookups_linearizable_in_quiet_run :
    afterQuietRun.history.length = 2 ∧ ∀ h ∈ afterQuietRun.history,
      ∃ i, h.started ≤ i ∧ i ≤ h.ended ∧
        (afterQuietRun.tableAt i).coldLookup Server.literalEngine h.path = h.result.map answer := by
  refine ⟨by decide, fun h member => ?_⟩
  exact (lookups_linearizable Server.literalEngine ⟨false, false⟩ 3 256 (by decide) quietRun
    (by decide) h member).1

end HttpServer.Concurrency
