import HttpServer.Lib.Run
import HttpServer.HeaderMaps
import Mathlib.Data.Finset.Card

/-!
Loading the query string under its two limits. `build_request_args` is called
for one raw pair after the other and stops the enumeration at the first pair
that would pass a limit, so what is loaded is the longest part of the query
string from its front that keeps both.
-/
namespace HttpServer
open ComparatorSet OrderedMap

def keyBytes (key : Str) : List Nat := key.map signedByte

abbrev RawPair := Str × Option Str

def decodedValue (pair : RawPair) : Str := unescapeInArena none (pair.2.getD [])

def rawBytes : List RawPair → Nat
  | [] => 0
  | pair :: pairs => pair.1.length + (pair.2.getD []).length + rawBytes pairs

namespace ArgMap

def values (args : ArgMap) (key : Str) : List Str := (args.find key).getD []

def names (args : ArgMap) : List (List Nat) := args.map fun kv => keyBytes kv.1

def storedBytes : ArgMap → Nat
  | [] => 0
  | kv :: rest => kv.1.length + kv.2.flatten.length + storedBytes rest

def distinctNames (args : ArgMap) (pairs : List RawPair) : Nat :=
  (args.names ++ pairs.map fun pair => keyBytes pair.1).toFinset.card

def appendPairs (args : ArgMap) (pairs : List RawPair) : ArgMap :=
  pairs.foldl (fun args pair => args.appendArg pair.1 (decodedValue pair)) args

end ArgMap

def KeepsLimits (count bytes : Nat) (args : ArgMap) (pairs : List RawPair) : Prop :=
  ∀ part, part <+: pairs → part ≠ [] → args.distinctNames part ≤ count ∧ rawBytes part ≤ bytes

namespace ArgSource

def countLimit (src : ArgSource) : Nat := if src.maxArgsCount ≠ 0 then src.maxArgsCount else 64

def bytesLimit (src : ArgSource) : Nat := if src.maxArgsBytes ≠ 0 then src.maxArgsBytes else 65536

structure Loads (src : ArgSource) (before after : ArgMap) (accepted : List RawPair) : Prop where
  front : accepted <+: src.queryArgs
  keeps : KeepsLimits src.countLimit src.bytesLimit before accepted
  longest : ∀ longer, longer <+: src.queryArgs →
    KeepsLimits src.countLimit src.bytesLimit before longer → longer.length ≤ accepted.length
  appended : ∀ key, after.values key = before.values key ++
    (accepted.filter fun pair => keyBytes pair.1 = keyBytes key).map decodedValue
  bounded : after.storedBytes ≤ before.storedBytes + src.bytesLimit

end ArgSource

theorem equivalent_arg_iff (a b : Str) :
    equivalent argComparator a b = true ↔ keyBytes a = keyBytes b :=
  equivalent_lengthFirst_iff signedByte a b

namespace ArgMap

theorem values_congr (args : ArgMap) {key other : Str} (same : keyBytes key = keyBytes other) :
    args.values key = args.values other := by
  rw [values, values, find, find, find_congr comparison_arg ((equivalent_arg_iff key other).mpr same)]

variable {args : ArgMap}

theorem Valid.values_findOrInsertArg (valid : args.Valid) (key : Str) (change : List Str → List Str)
    (other : Str) :
    (args.findOrInsertArg key change).values other =
      if keyBytes key = keyBytes other then change (args.values other) else args.values other := by
  rw [values, valid.find_findOrInsertArg]
  by_cases same : keyBytes key = keyBytes other
  · rw [if_pos ((equivalent_arg_iff key other).mpr same), if_pos same, ← args.values_congr same]
    rfl
  · rw [if_neg (fun here => same ((equivalent_arg_iff key other).mp here)), if_neg same]
    rfl

theorem Valid.values_appendArg (valid : args.Valid) (key value other : Str) :
    (args.appendArg key value).values other =
      args.values other ++ if keyBytes key = keyBytes other then [value] else [] := by
  rw [appendArg_eq, valid.values_findOrInsertArg]
  split
  · rfl
  · exact (List.append_nil _).symm

theorem mem_names_appendArg (key value : Str) (args : ArgMap) (name : List Nat) :
    name ∈ (args.appendArg key value).names ↔ name = keyBytes key ∨ name ∈ args.names := by
  induction args with
  | nil => simp [appendArg, names]
  | cons head rest ih =>
    obtain ⟨k, values⟩ := head
    rw [appendArg]
    split
    · simp [names]
    · split
      · simp only [names, List.map_cons, List.mem_cons] at ih ⊢
        rw [ih]
        exact or_left_comm
      · rename_i notBefore notBehind
        have same : keyBytes key = keyBytes k :=
          (equivalent_arg_iff key k).mp (by simp [equivalent, notBefore, notBehind])
        simp only [names, List.map_cons, List.mem_cons, same]
        exact ⟨Or.inr, fun listed => listed.elim Or.inl id⟩

theorem Valid.nodup_names (valid : args.Valid) : args.names.Nodup := by
  refine List.pairwise_map.mpr (valid.ordered.imp fun {a b} before same => ?_)
  have apart := not_equivalent before
  rw [(equivalent_arg_iff a.1 b.1).mpr same] at apart
  cases apart

theorem distinctNames_appendArg (key value : Str) (args : ArgMap) (argValue : Option Str)
    (pairs : List RawPair) :
    (args.appendArg key value).distinctNames pairs = args.distinctNames ((key, argValue) :: pairs) := by
  have same : ((args.appendArg key value).names ++ pairs.map fun pair => keyBytes pair.1).toFinset =
      (args.names ++ ((key, argValue) :: pairs).map fun pair => keyBytes pair.1).toFinset := by
    ext name
    simp only [List.mem_toFinset, List.mem_append, mem_names_appendArg, List.map_cons, List.mem_cons]
    exact ⟨fun listed => by tauto, fun listed => by tauto⟩
  rw [distinctNames, same, distinctNames]

/-- The count that the guard of `build_request_args` looks at. -/
theorem Valid.distinctNames_singleton (valid : args.Valid) (pair : RawPair) :
    args.distinctNames [pair] = args.length +
      if (!args.any fun kv => !argComparator kv.1 pair.1 && !argComparator pair.1 kv.1) then 1
      else 0 := by
  have known : (args.any fun kv => !argComparator kv.1 pair.1 && !argComparator pair.1 kv.1) = true ↔
      keyBytes pair.1 ∈ args.names := by
    rw [List.any_eq_true, names, List.mem_map]
    exact exists_congr fun kv => and_congr_right fun _ => equivalent_arg_iff kv.1 pair.1
  have whole : args.names.length = args.length := List.length_map _
  by_cases listed : keyBytes pair.1 ∈ args.names
  · have same : (args.names ++ [pair].map fun pair => keyBytes pair.1).toFinset =
        args.names.toFinset := by
      ext name
      simp only [List.map_cons, List.map_nil, List.mem_toFinset, List.mem_append,
        List.mem_singleton, or_iff_left_iff_imp]
      rintro rfl
      exact listed
    rw [distinctNames, same, List.toFinset_card_of_nodup valid.nodup_names, whole,
      known.mpr listed]
    rfl
  · have fresh : (args.names ++ [keyBytes pair.1]).Nodup := by
      rw [← List.concat_eq_append]
      exact valid.nodup_names.concat listed
    have absent := Bool.eq_false_iff.mpr fun found => listed (known.mp found)
    rw [distinctNames, List.map_cons, List.map_nil, List.toFinset_card_of_nodup fresh,
      List.length_append, whole, absent]
    rfl

theorem Valid.values_appendPairs (valid : args.Valid) (pairs : List RawPair) (key : Str) :
    (args.appendPairs pairs).values key = args.values key ++
      (pairs.filter fun pair => keyBytes pair.1 = keyBytes key).map decodedValue := by
  induction pairs generalizing args with
  | nil => simp [ArgMap.appendPairs]
  | cons pair pairs ih =>
    have later := ih (valid.appendArg pair.1 (decodedValue pair))
    rw [ArgMap.appendPairs, List.foldl_cons, ← ArgMap.appendPairs, later, valid.values_appendArg,
      List.append_assoc, List.filter_cons]
    by_cases same : keyBytes pair.1 = keyBytes key
    · simp [same]
    · simp [same]

theorem storedBytes_appendArg (key value : Str) (args : ArgMap) :
    (args.appendArg key value).storedBytes ≤ args.storedBytes + (key.length + value.length) := by
  induction args with
  | nil => simp [appendArg, storedBytes]
  | cons head rest ih =>
    obtain ⟨k, values⟩ := head
    rw [appendArg]
    split
    · simp only [storedBytes, List.flatten_singleton]
      omega
    · split
      · simp only [storedBytes] at ih ⊢
        omega
      · simp only [storedBytes, List.flatten_append, List.flatten_singleton, List.length_append]
        omega

end ArgMap

theorem length_unescapeBufRaw (s : Str) : (unescapeBufRaw s).length ≤ s.length := by
  fun_induction unescapeBufRaw s with
  | case1 => simp
  | case2 rest ih =>
    simp only [List.length_cons]
    omega
  | case3 hi lo rest h l _ _ ih =>
    simp only [List.length_cons]
    omega
  | case4 hi lo rest _ ih =>
    simp only [List.length_cons] at ih ⊢
    omega
  | case5 => simp
  | case6 c rest _ _ _ ih =>
    simp only [List.length_cons]
    omega

theorem unescapeInArena_none (value : Str) : unescapeInArena none value = unescapeBufRaw value := by
  unfold unescapeInArena
  split
  · rename_i empty
    rw [empty]
    rfl
  · rfl

theorem length_decodedValue (pair : RawPair) :
    (decodedValue pair).length ≤ (pair.2.getD []).length := by
  rw [decodedValue, unescapeInArena_none]
  exact length_unescapeBufRaw _

theorem rawBytes_cons (pair : RawPair) (pairs : List RawPair) :
    rawBytes (pair :: pairs) = pair.1.length + (pair.2.getD []).length + rawBytes pairs := rfl

theorem rawBytes_append (pairs more : List RawPair) :
    rawBytes (pairs ++ more) = rawBytes pairs + rawBytes more := by
  induction pairs with
  | nil => exact (Nat.zero_add _).symm
  | cons pair pairs ih =>
    rw [List.cons_append, rawBytes_cons, rawBytes_cons, ih]
    omega

theorem storedBytes_appendPairs (args : ArgMap) (pairs : List RawPair) :
    (args.appendPairs pairs).storedBytes ≤ args.storedBytes + rawBytes pairs := by
  induction pairs generalizing args with
  | nil => exact Nat.le_refl _
  | cons pair pairs ih =>
    have later := ih (args.appendArg pair.1 (decodedValue pair))
    have first := ArgMap.storedBytes_appendArg pair.1 (decodedValue pair) args
    have short := length_decodedValue pair
    rw [ArgMap.appendPairs, List.foldl_cons, ← ArgMap.appendPairs, rawBytes_cons]
    omega

def PassesGuards (count bytes accumulated : Nat) (args : ArgMap) (part : List RawPair) : Prop :=
  args.distinctNames part ≤ count ∧ accumulated + rawBytes part ≤ bytes

section
variable {count bytes accumulated : Nat} {args : ArgMap} {pair : RawPair} {rest : List RawPair}

/-- Below 2^64 bytes the counter does not wrap, and one step is the two guards. -/
theorem buildRequestArgs_cons (valid : args.Valid)
    (small : accumulated + rawBytes [pair] < UInt64.size) :
    buildRequestArgs none count bytes args accumulated (pair :: rest) =
      if args.distinctNames [pair] > count then args
      else if accumulated + rawBytes [pair] > bytes then args
      else buildRequestArgs none count bytes (args.appendArg pair.1 (decodedValue pair))
        (accumulated + rawBytes [pair]) rest := by
  rw [valid.distinctNames_singleton, ← Nat.mod_eq_of_lt small]
  rfl

theorem buildRequestArgs_rejected (valid : args.Valid)
    (small : accumulated + rawBytes [pair] < UInt64.size)
    (fails : ¬ PassesGuards count bytes accumulated args [pair]) :
    buildRequestArgs none count bytes args accumulated (pair :: rest) = args := by
  rw [buildRequestArgs_cons valid small]
  rcases not_and_or.mp fails with many | long
  · rw [if_pos (Nat.lt_of_not_le many)]
  · rw [if_pos (Nat.lt_of_not_le long), ite_self]

theorem buildRequestArgs_accepted (valid : args.Valid)
    (small : accumulated + rawBytes [pair] < UInt64.size)
    (passes : PassesGuards count bytes accumulated args [pair]) :
    buildRequestArgs none count bytes args accumulated (pair :: rest) =
      buildRequestArgs none count bytes (args.appendArg pair.1 (decodedValue pair))
        (accumulated + rawBytes [pair]) rest := by
  rw [buildRequestArgs_cons valid small, if_neg (Nat.not_lt.mpr passes.1),
    if_neg (Nat.not_lt.mpr passes.2)]

end

variable {count bytes : Nat} {args : ArgMap}

theorem passesGuards_appendArg {accumulated : Nat} (pair : RawPair) (part : List RawPair) :
    PassesGuards count bytes (accumulated + rawBytes [pair])
        (args.appendArg pair.1 (decodedValue pair)) part ↔
      PassesGuards count bytes accumulated args (pair :: part) := by
  rw [PassesGuards, PassesGuards, ArgMap.distinctNames_appendArg pair.1 _ args pair.2 part,
    Nat.add_assoc, ← rawBytes_append, List.singleton_append]

theorem buildRequestArgs_eq {count bytes : Nat} {rest : List RawPair} (taken : List RawPair)
    {args : ArgMap} (valid : args.Valid) (accumulated : Nat)
    (small : accumulated + rawBytes (taken ++ rest) < UInt64.size)
    (passes : ∀ part, part <+: taken → part ≠ [] → PassesGuards count bytes accumulated args part)
    (stops : ∀ pair later, rest = pair :: later →
      ¬ PassesGuards count bytes accumulated args (taken ++ [pair])) :
    buildRequestArgs none count bytes args accumulated (taken ++ rest) = args.appendPairs taken := by
  induction taken generalizing args accumulated with
  | nil =>
    cases rest with
    | nil => rfl
    | cons pair later =>
      rw [List.nil_append, ← List.singleton_append, rawBytes_append] at small
      exact buildRequestArgs_rejected valid (by omega) (stops pair later rfl)
  | cons pair taken ih =>
    rw [List.cons_append, ← List.singleton_append, rawBytes_append] at small
    have first := passes [pair] (by simp) (by simp)
    rw [List.cons_append, buildRequestArgs_accepted valid (by omega) first]
    refine ih (valid.appendArg pair.1 _) _ (by omega) ?_ ?_
    · intro part short some_
      exact (passesGuards_appendArg pair part).mpr
        (passes _ (List.cons_prefix_cons.mpr ⟨rfl, short⟩) (by simp))
    · intro next later split passed
      exact stops next later split ((passesGuards_appendArg pair _).mp passed)

theorem buildRequestArgs_all {pairs : List RawPair} (valid : args.Valid)
    (small : rawBytes pairs < UInt64.size)
    (passes : ∀ part, part <+: pairs → part ≠ [] → PassesGuards count bytes 0 args part) :
    buildRequestArgs none count bytes args 0 pairs = args.appendPairs pairs := by
  have loaded := @buildRequestArgs_eq count bytes [] pairs args valid 0
    (by rw [List.append_nil]; omega) passes fun pair later empty => (by cases empty)
  rwa [List.append_nil] at loaded

theorem longest_of_stops {pairs taken rest longer : List RawPair} (split : pairs = taken ++ rest)
    (stops : ∀ pair later, rest = pair :: later → ¬ PassesGuards count bytes 0 args (taken ++ [pair]))
    (front : longer <+: pairs) (keeps : KeepsLimits count bytes args longer) :
    longer.length ≤ taken.length := by
  by_contra more
  obtain ⟨behind, rfl⟩ : taken <+: longer :=
    List.prefix_of_prefix_length_le (split ▸ List.prefix_append taken rest) front (by omega)
  cases behind with
  | nil => simp at more
  | cons pair behind =>
    rw [split, List.prefix_append_right_inj] at front
    obtain ⟨later, rfl⟩ := front
    have passed := keeps (taken ++ [pair]) (by simp) (by simp)
    exact stops pair (behind ++ later) rfl ⟨passed.1, by simpa using passed.2⟩

theorem populateArgs_unread {src : ArgSource} {s : RequestArgs} (plain : src.unescaper = none)
    (unread : s.argsPopulated = false) :
    s.populateArgs src = { s with
      unescapedArgs := buildRequestArgs none src.countLimit src.bytesLimit s.unescapedArgs 0
        src.queryArgs
      argsPopulated := true } := by
  rw [RequestArgs.populateArgs, unread, if_neg (by decide), plain]
  rfl

/-- The first read loads the longest part of the query string within the limits,
    as if there were nothing behind it. -/
theorem query_limits_hold (src : ArgSource) (s : RequestArgs) (plain : src.unescaper = none)
    (valid : s.unescapedArgs.Valid) (unread : s.argsPopulated = false)
    (small : rawBytes src.queryArgs < UInt64.size / 2) :
    ∃ accepted, src.Loads s.unescapedArgs (s.populateArgs src).unescapedArgs accepted ∧
      s.populateArgs src = s.populateArgs { src with queryArgs := accepted } := by
  obtain ⟨accepted, rest, split, passes, stops⟩ :=
    Run.exists_longest (PassesGuards src.countLimit src.bytesLimit 0 s.unescapedArgs) src.queryArgs
  have keeps : KeepsLimits src.countLimit src.bytesLimit s.unescapedArgs accepted :=
    fun part front some_ => by simpa [PassesGuards] using passes part front some_
  have counted := rawBytes_append accepted rest
  have whole : rawBytes (accepted ++ rest) < UInt64.size :=
    Nat.lt_trans (split ▸ small) (by decide)
  have loaded : buildRequestArgs none src.countLimit src.bytesLimit s.unescapedArgs 0
      src.queryArgs = s.unescapedArgs.appendPairs accepted := by
    rw [split]
    exact buildRequestArgs_eq accepted valid 0 (by omega) passes stops
  have alone : buildRequestArgs none src.countLimit src.bytesLimit s.unescapedArgs 0
      accepted = s.unescapedArgs.appendPairs accepted :=
    buildRequestArgs_all valid (by omega) passes
  refine ⟨accepted, ⟨⟨rest, split.symm⟩, keeps, ?_, ?_, ?_⟩, ?_⟩
  · intro longer front kept
    exact longest_of_stops split stops front kept
  · intro key
    rw [populateArgs_unread plain unread, loaded]
    exact valid.values_appendPairs accepted key
  · rw [populateArgs_unread plain unread, loaded]
    refine (storedBytes_appendPairs _ accepted).trans (Nat.add_le_add_left ?_ _)
    rcases eq_or_ne accepted [] with rfl | some_
    · exact Nat.zero_le _
    · exact (keeps accepted (List.prefix_refl _) some_).2
  · have loads : s.populateArgs { src with queryArgs := accepted } = _ :=
      populateArgs_unread plain unread
    rw [populateArgs_unread plain unread, loads, loaded]
    exact congrArg (fun args => { s with unescapedArgs := args, argsPopulated := true }) alone.symm

theorem third_name_left_out :
    (({} : RequestArgs).populateArgs
      ⟨[("a".toList, some "1".toList), ("b".toList, some "%41".toList), ("c".toList, none)], none,
        2, 0⟩).unescapedArgs = [("a".toList, ["1".toList]), ("b".toList, ["A".toList])] ∧
    ∃ accepted, ArgSource.Loads
        ⟨[("a".toList, some "1".toList), ("b".toList, some "%41".toList), ("c".toList, none)], none,
          2, 0⟩ []
        (({} : RequestArgs).populateArgs
          ⟨[("a".toList, some "1".toList), ("b".toList, some "%41".toList), ("c".toList, none)],
            none, 2, 0⟩).unescapedArgs accepted ∧
      ({} : RequestArgs).populateArgs
          ⟨[("a".toList, some "1".toList), ("b".toList, some "%41".toList), ("c".toList, none)],
            none, 2, 0⟩ =
        ({} : RequestArgs).populateArgs ⟨accepted, none, 2, 0⟩ :=
  ⟨by decide, query_limits_hold _ {} rfl ArgMap.valid_nil rfl (by decide)⟩

end HttpServer
