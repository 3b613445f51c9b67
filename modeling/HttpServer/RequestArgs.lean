import HttpServer.Lib.OrderedMap
import HttpServer.HttpResponse

/-!
The arguments of a request: the map that body fields, path captures and query
arguments are appended to at different times, and the two caches of views that
readers build from it. Query arguments are loaded on the first read.
-/
namespace HttpServer
open ComparatorSet OrderedMap

abbrev ArgMap := List (Str × List Str)

/-- The order of plain `char`, which is signed. -/
def signedByte (c : Char) : Nat := (c.toNat + 128) % 256

def argComparator (x y : Str) : Bool :=
  if x.length < y.length then true
  else if y.length < x.length then false
  else comparatorLoop signedByte x y

def ArgMap.appendArg (key value : Str) : ArgMap → ArgMap
  | [] => [(key, [value])]
  | (k, vs) :: rest =>
    if argComparator key k then (key, [value]) :: (k, vs) :: rest
    else if argComparator k key then (k, vs) :: ArgMap.appendArg key value rest
    else (k, vs ++ [value]) :: rest

def unescapeInArena (unescaper : Option (Str → Str)) (value : Str) : Str :=
  if value = [] then value
  else match unescaper with
    | none => unescapeBufRaw value
    | some userFn => userFn value

/-- `build_request_args` on the arguments still to come; the first one beyond a
    limit ends the enumeration. -/
def buildRequestArgs (unescaper : Option (Str → Str)) (maxArgsCount maxArgsBytes : Nat) :
    ArgMap → Nat → List (Str × Option Str) → ArgMap
  | args, _, [] => args
  | args, accumulatedBytes, (key, argValue) :: rest =>
    let value := argValue.getD []
    let isNewKey := !args.any fun kv => !argComparator kv.1 key && !argComparator key kv.1
    let bytes := (accumulatedBytes + (key.length + value.length)) % UInt64.size
    if args.length + (if isNewKey then 1 else 0) > maxArgsCount then args
    else if bytes > maxArgsBytes then args
    else buildRequestArgs unescaper maxArgsCount maxArgsBytes
      (args.appendArg key (unescapeInArena unescaper value)) bytes rest

def ArgMap.findOrInsertArg (key : Str) (change : List Str → List Str) (args : ArgMap) : ArgMap :=
  alter argComparator key (fun values => change (values.getD [])) args

def ArgMap.find (args : ArgMap) (key : Str) : Option (List Str) :=
  OrderedMap.find argComparator args key

/-- What libmicrohttpd and the configuration have for a request; a limit of 0
    stands for the default. -/
structure ArgSource where
  queryArgs : List (Str × Option Str)
  unescaper : Option (Str → Str) := none
  maxArgsCount : Nat := 0
  maxArgsBytes : Nat := 0

/-- The argument part of `http_request_impl`. The caches hold views in the
    source; here they hold the texts the views were built on. -/
structure RequestArgs where
  unescapedArgs : ArgMap := []
  argsPopulated : Bool := false
  argsViewCached : ArgMap := []
  argsViewCacheBuilt : Bool := false
  argsFlatViewCached : List (Str × Str) := []
  argsFlatViewCacheBuilt : Bool := false
  deriving DecidableEq, Repr

namespace RequestArgs

def populateArgs (src : ArgSource) (s : RequestArgs) : RequestArgs :=
  if s.argsPopulated then s
  else { s with
    unescapedArgs := buildRequestArgs src.unescaper
      (if src.maxArgsCount ≠ 0 then src.maxArgsCount else 64)
      (if src.maxArgsBytes ≠ 0 then src.maxArgsBytes else 65536)
      s.unescapedArgs 0 src.queryArgs
    argsPopulated := true }

def flatView (args : ArgMap) : List (Str × Str) :=
  args.filterMap fun kv => kv.2.head?.map fun first => (kv.1, first)

def ensureArgsFlatViewCached (s : RequestArgs) : RequestArgs :=
  if s.argsFlatViewCacheBuilt then s
  else { s with argsFlatViewCached := flatView s.unescapedArgs, argsFlatViewCacheBuilt := true }

def ensureArgsViewCached (s : RequestArgs) : RequestArgs :=
  if s.argsViewCacheBuilt then s
  else { s with argsViewCached := s.unescapedArgs, argsViewCacheBuilt := true }

def setArg (s : RequestArgs) (key value : Str) (contentSizeLimit : Nat) : RequestArgs :=
  { s with
    argsViewCacheBuilt := false
    unescapedArgs := s.unescapedArgs.appendArg key (value.take (min value.length contentSizeLimit)) }

/-- The `const char*` form; the caller passes the size of the value. -/
def setArgSized (s : RequestArgs) (key value : Str) (size contentSizeLimit : Nat) : RequestArgs :=
  { s with
    argsViewCacheBuilt := false
    unescapedArgs := s.unescapedArgs.appendArg key (value.take (min size contentSizeLimit)) }

def setArgFlat (s : RequestArgs) (key value : Str) (contentSizeLimit : Nat) : RequestArgs :=
  { s with
    argsViewCacheBuilt := false
    unescapedArgs :=
      s.unescapedArgs.findOrInsertArg key fun _ => [value.take (min value.length contentSizeLimit)] }

def setArgs (s : RequestArgs) (args : List (Str × Str)) (contentSizeLimit : Nat) : RequestArgs :=
  { s with
    argsViewCacheBuilt := false
    unescapedArgs := args.foldl
      (fun map kv => map.appendArg kv.1 (kv.2.take (min kv.2.length contentSizeLimit)))
      s.unescapedArgs }

def growLast (value : Str) (values : List Str) : List Str :=
  match values.getLast? with
  | some last => values.dropLast ++ [last ++ value]
  | none => [value]

def growLastArg (s : RequestArgs) (key value : Str) : RequestArgs :=
  { s with
    argsViewCacheBuilt := false
    unescapedArgs := s.unescapedArgs.findOrInsertArg key (growLast value) }

def getArg (src : ArgSource) (s : RequestArgs) (key : Str) : RequestArgs × List Str :=
  let s := s.populateArgs src
  (s, (s.unescapedArgs.find key).getD [])

/-- `none` is the access out of range that an empty vector would lead to. -/
def getArgFlat (src : ArgSource) (s : RequestArgs) (key : Str) : RequestArgs × Option Str :=
  let s := s.populateArgs src
  (s, match s.unescapedArgs.find key with
    | some values => values[0]?
    | none => some [])

def getArgs (src : ArgSource) (s : RequestArgs) : RequestArgs × ArgMap :=
  let s := (s.populateArgs src).ensureArgsViewCached
  (s, s.argsViewCached)

def getArgsFlat (src : ArgSource) (s : RequestArgs) : RequestArgs × List (Str × Str) :=
  let s := (s.populateArgs src).ensureArgsFlatViewCached
  (s, s.argsFlatViewCached)

end RequestArgs

inductive ArgRead where
  | getArg (key : Str)
  | getArgFlat (key : Str)
  | getArgs
  | getArgsFlat
  deriving DecidableEq, Repr

inductive ArgOp where
  | read (r : ArgRead)
  | setArg (key value : Str) (limit : Nat)
  | setArgSized (key value : Str) (size limit : Nat)
  | setArgFlat (key value : Str) (limit : Nat)
  | setArgs (args : List (Str × Str)) (limit : Nat)
  | growLastArg (key value : Str)
  deriving DecidableEq, Repr

def ArgOp.mutates : ArgOp → Bool
  | .read _ => false
  | _ => true

namespace RequestArgs

def read (src : ArgSource) (s : RequestArgs) : ArgRead → RequestArgs
  | .getArg key => (s.getArg src key).1
  | .getArgFlat key => (s.getArgFlat src key).1
  | .getArgs => (s.getArgs src).1
  | .getArgsFlat => (s.getArgsFlat src).1

def step (src : ArgSource) (s : RequestArgs) : ArgOp → RequestArgs
  | .read r => s.read src r
  | .setArg key value limit => s.setArg key value limit
  | .setArgSized key value size limit => s.setArgSized key value size limit
  | .setArgFlat key value limit => s.setArgFlat key value limit
  | .setArgs args limit => s.setArgs args limit
  | .growLastArg key value => s.growLastArg key value

structure ViewsAgree (src : ArgSource) (s : RequestArgs) : Prop where
  present : ∀ key values, (s.getArgs src).2.find key = some values →
    ∃ first rest, values = first :: rest ∧ (s.getArg src key).2 = values ∧
      (s.getArgFlat src key).2 = some first ∧
      find argComparator (s.getArgsFlat src).2 key = some first
  absent : ∀ key, (s.getArgs src).2.find key = none →
    (s.getArg src key).2 = [] ∧ (s.getArgFlat src key).2 = some [] ∧
      find argComparator (s.getArgsFlat src).2 key = none

end RequestArgs

theorem comparatorLoop_asymm (op : Char → Nat) {x y : Str} (xy : comparatorLoop op x y = true) :
    comparatorLoop op y x = false := by
  induction x generalizing y with
  | nil => simp [comparatorLoop] at xy
  | cons a x ih =>
    cases y with
    | nil => rfl
    | cons b y =>
      rw [comparatorLoop] at xy ⊢
      by_cases ab : op a < op b
      · rw [if_neg (by omega), if_pos ab]
      · by_cases ba : op b < op a
        · simp [ab, ba] at xy
        · rw [if_neg ab, if_neg ba] at xy
          rw [if_neg ba, if_neg ab, ih xy]

theorem comparatorLoop_between (op : Char → Nat) {x y z : Str} (long : x.length = y.length)
    (xz : comparatorLoop op x z = true) :
    comparatorLoop op x y = true ∨ comparatorLoop op y z = true := by
  induction x generalizing y z with
  | nil => simp [comparatorLoop] at xz
  | cons a x ih =>
    cases y with
    | nil => simp at long
    | cons b y =>
      cases z with
      | nil => simp [comparatorLoop] at xz
      | cons c z =>
        simp only [comparatorLoop] at xz ⊢
        by_cases ab : op a < op b
        · simp [ab]
        · by_cases bc : op b < op c
          · simp [bc]
          · by_cases ac : op a < op c
            · omega
            · by_cases ca : op c < op a
              · simp [ac, ca] at xz
              · rw [if_neg ac, if_neg ca] at xz
                rw [if_neg ab, if_neg (by omega), if_neg bc, if_neg (by omega)]
                exact ih (by simpa using long) xz

theorem comparison_lengthFirst (op : Char → Nat) : Comparison fun x y : Str =>
    if x.length < y.length then true
    else if y.length < x.length then false else comparatorLoop op x y := by
  refine ⟨fun x y xy => ?_, fun x y z xz => ?_⟩
  · by_cases short : x.length < y.length
    · rw [if_neg (by omega), if_pos short]
    · by_cases long : y.length < x.length
      · simp [short, long] at xy
      · rw [if_neg short, if_neg long] at xy
        rw [if_neg long, if_neg short, comparatorLoop_asymm op xy]
  · by_cases short : x.length < y.length
    · simp [short]
    · by_cases longer : y.length < z.length
      · simp [longer]
      · by_cases less : x.length < z.length
        · omega
        · by_cases more : z.length < x.length
          · simp [less, more] at xz
          · rw [if_neg less, if_neg more] at xz
            rw [if_neg short, if_neg (by omega), if_neg longer, if_neg (by omega)]
            exact comparatorLoop_between op (by omega) xz

theorem comparison_arg : Comparison argComparator := comparison_lengthFirst signedByte

namespace ArgMap

theorem appendArg_eq (key value : Str) (args : ArgMap) :
    args.appendArg key value = args.findOrInsertArg key (· ++ [value]) := by
  induction args with
  | nil => rfl
  | cons head rest ih =>
    rw [appendArg, ih]
    rfl

structure Valid (args : ArgMap) : Prop where
  ordered : Ordered argComparator args
  filled : ∀ kv ∈ args, kv.2 ≠ []

theorem valid_nil : Valid [] := ⟨List.Pairwise.nil, fun _ listed => absurd listed List.not_mem_nil⟩

variable {args : ArgMap}

theorem Valid.findOrInsertArg (valid : args.Valid) (key : Str) {change : List Str → List Str}
    (fills : ∀ values, change values ≠ []) : Valid (args.findOrInsertArg key change) where
  ordered := ordered_alter comparison_arg valid.ordered key _
  filled kv listed := (@forall_alter _ _ argComparator (fun _ => True) (· ≠ []) args
    (fun kv listed => ⟨trivial, valid.filled kv listed⟩) key trivial _
    (fun values => fills (values.getD [])) kv listed).2

theorem Valid.appendArg (valid : args.Valid) (key value : Str) :
    Valid (args.appendArg key value) := by
  rw [appendArg_eq]
  exact valid.findOrInsertArg key fun values => by simp

theorem Valid.find_ne_nil (valid : args.Valid) {key : Str} {values : List Str}
    (found : args.find key = some values) : values ≠ [] := by
  obtain ⟨k, listed⟩ := mem_of_find found
  exact valid.filled (k, values) listed

theorem Valid.find_findOrInsertArg (valid : args.Valid) (key : Str) (change : List Str → List Str)
    (other : Str) :
    (args.findOrInsertArg key change).find other =
      if equivalent argComparator key other = true then some (change ((args.find key).getD []))
      else args.find other :=
  find_alter comparison_arg valid.ordered key _ other

theorem Valid.find_appendArg (valid : args.Valid) (key value other : Str) :
    (args.appendArg key value).find other =
      if equivalent argComparator key other = true then some ((args.find key).getD [] ++ [value])
      else args.find other := by
  rw [appendArg_eq]
  exact valid.find_findOrInsertArg key _ other

end ArgMap

theorem take_min_length (value : Str) (limit : Nat) :
    value.take (min value.length limit) = value.take limit := by
  rw [Nat.min_comm, List.take_eq_take_min]
  simp

theorem buildRequestArgs_keeps {P : ArgMap → Prop} {pairs : List (Str × Option Str)}
    (keeps : ∀ args pair value, pair ∈ pairs → P args → P (ArgMap.appendArg pair.1 value args))
    (unescaper : Option (Str → Str)) (maxCount maxBytes : Nat) {args : ArgMap} (bytes : Nat)
    (holds : P args) :
    P (buildRequestArgs unescaper maxCount maxBytes args bytes pairs) := by
  induction pairs generalizing args bytes with
  | nil => exact holds
  | cons pair rest ih =>
    rw [buildRequestArgs]
    refine iteInduction (fun _ => holds) fun _ => iteInduction (fun _ => holds) fun _ => ?_
    refine ih (fun args other value listed => ?_) _ (keeps args pair _ List.mem_cons_self holds)
    exact keeps args other value (List.mem_cons_of_mem _ listed)

namespace RequestArgs

theorem populateArgs_keeps {P : ArgMap → Prop} {src : ArgSource}
    (keeps : ∀ args pair value, pair ∈ src.queryArgs → P args →
      P (ArgMap.appendArg pair.1 value args))
    {s : RequestArgs} (holds : P s.unescapedArgs) : P (s.populateArgs src).unescapedArgs := by
  unfold populateArgs
  split
  · exact holds
  · exact buildRequestArgs_keeps keeps _ _ _ 0 holds

variable {s : RequestArgs} {args : ArgMap}

theorem valid_populateArgs (src : ArgSource) (valid : s.unescapedArgs.Valid) :
    (s.populateArgs src).unescapedArgs.Valid :=
  populateArgs_keeps (fun _ pair value _ valid => valid.appendArg pair.1 value) valid

theorem valid_foldl (valid : args.Valid) (pairs : List (Str × Str)) (cut : Str → Str) :
    (pairs.foldl (fun map kv => map.appendArg kv.1 (cut kv.2)) args).Valid := by
  induction pairs generalizing args with
  | nil => exact valid
  | cons pair rest ih => exact ih (valid.appendArg pair.1 _)

theorem growLast_ne_nil (value : Str) (values : List Str) : growLast value values ≠ [] := by
  unfold growLast
  split
  · simp
  · simp

structure Fresh (s : RequestArgs) : Prop where
  valid : s.unescapedArgs.Valid
  view : s.argsViewCacheBuilt = true →
    s.argsPopulated = true ∧ s.argsViewCached = s.unescapedArgs
  flat : s.argsFlatViewCacheBuilt = true →
    s.argsPopulated = true ∧ s.argsFlatViewCached = flatView s.unescapedArgs

theorem fresh_new : Fresh {} :=
  ⟨ArgMap.valid_nil, fun built => (nomatch built), fun built => (nomatch built)⟩

theorem populateArgs_populated (src : ArgSource) (s : RequestArgs) :
    (s.populateArgs src).argsPopulated = true := by
  unfold populateArgs
  split
  · assumption
  · rfl

theorem Fresh.populateArgs (fresh : s.Fresh) (src : ArgSource) : (s.populateArgs src).Fresh := by
  have valid := valid_populateArgs src fresh.valid
  unfold RequestArgs.populateArgs at valid ⊢
  split
  · exact fresh
  · rename_i unread
    rw [if_neg unread] at valid
    refine ⟨valid, fun built => ?_, fun built => ?_⟩
    · exact absurd (fresh.view built).1 unread
    · exact absurd (fresh.flat built).1 unread

theorem Fresh.ensureArgsViewCached (fresh : s.Fresh) (populated : s.argsPopulated = true) :
    s.ensureArgsViewCached.Fresh := by
  unfold RequestArgs.ensureArgsViewCached
  split
  · exact fresh
  · exact ⟨fresh.valid, fun _ => ⟨populated, rfl⟩, fresh.flat⟩

theorem Fresh.ensureArgsFlatViewCached (fresh : s.Fresh) (populated : s.argsPopulated = true) :
    s.ensureArgsFlatViewCached.Fresh := by
  unfold RequestArgs.ensureArgsFlatViewCached
  split
  · exact fresh
  · exact ⟨fresh.valid, fresh.view, fun _ => ⟨populated, rfl⟩⟩

theorem Fresh.read (fresh : s.Fresh) (src : ArgSource) (r : ArgRead) : (s.read src r).Fresh := by
  have loaded := fresh.populateArgs src
  have populated := populateArgs_populated src s
  cases r with
  | getArg key => exact loaded
  | getArgFlat key => exact loaded
  | getArgs => exact loaded.ensureArgsViewCached populated
  | getArgsFlat => exact loaded.ensureArgsFlatViewCached populated

theorem Fresh.write (unbuilt : s.argsFlatViewCacheBuilt = false) (valid : args.Valid) :
    Fresh { s with argsViewCacheBuilt := false, unescapedArgs := args } :=
  ⟨valid, fun built => (nomatch built), fun built => absurd built (by simp [unbuilt])⟩

theorem Fresh.step (fresh : s.Fresh) (src : ArgSource) {op : ArgOp}
    (early : op.mutates = true → s.argsFlatViewCacheBuilt = false) : (s.step src op).Fresh := by
  cases op with
  | read r => exact fresh.read src r
  | setArg key value limit => exact .write (early rfl) (fresh.valid.appendArg key _)
  | setArgSized key value size limit =>
    exact .write (early rfl) (fresh.valid.appendArg key _)
  | setArgFlat key value limit =>
    exact .write (early rfl) (fresh.valid.findOrInsertArg key fun _ => by simp)
  | setArgs args limit =>
    exact .write (early rfl) (valid_foldl fresh.valid args fun v => v.take (min v.length limit))
  | growLastArg key value =>
    exact .write (early rfl) (fresh.valid.findOrInsertArg key (growLast_ne_nil value))

theorem flatBuilt_step (src : ArgSource) (s : RequestArgs) (op : ArgOp)
    (built : (s.step src op).argsFlatViewCacheBuilt = true) :
    s.argsFlatViewCacheBuilt = true ∨ op = .read .getArgsFlat := by
  have loaded : (s.populateArgs src).argsFlatViewCacheBuilt = s.argsFlatViewCacheBuilt := by
    unfold populateArgs
    split
    · rfl
    · rfl
  cases op with
  | read r =>
    cases r with
    | getArg key => exact Or.inl (loaded ▸ built)
    | getArgFlat key => exact Or.inl (loaded ▸ built)
    | getArgs =>
      refine Or.inl (loaded ▸ ?_)
      simp only [step, read, getArgs, ensureArgsViewCached] at built
      split at built
      · exact built
      · exact built
    | getArgsFlat => exact Or.inr rfl
  | _ => exact Or.inl built

/-- No mutator runs behind a `get_args_flat`. -/
def FlatReadsLast (ops : List ArgOp) : Prop :=
  ops.Pairwise fun early late => early = .read .getArgsFlat → late.mutates = false

instance decidableFlatReadsLast (ops : List ArgOp) : Decidable (FlatReadsLast ops) :=
  inferInstanceAs (Decidable (ops.Pairwise _))

theorem fresh_run (src : ArgSource) {ops : List ArgOp} (fresh : s.Fresh)
    (quiet : s.argsFlatViewCacheBuilt = true → ∀ op ∈ ops, op.mutates = false)
    (order : FlatReadsLast ops) : (ops.foldl (step src) s).Fresh := by
  induction ops generalizing s with
  | nil => exact fresh
  | cons op ops ih =>
    obtain ⟨behind, rest⟩ := List.pairwise_cons.mp order
    refine ih (fresh.step src fun mutates => ?_) (fun built later listed => ?_) rest
    · cases flat : s.argsFlatViewCacheBuilt with
      | false => rfl
      | true =>
        rw [quiet flat op List.mem_cons_self] at mutates
        cases mutates
    · rcases flatBuilt_step src s op built with before | here
      · exact quiet before later (List.mem_cons_of_mem _ listed)
      · exact behind later listed here

theorem find_flatView (filled : ∀ kv ∈ args, kv.2 ≠ []) (key : Str) :
    find argComparator (flatView args) key = (args.find key).bind List.head? := by
  induction args with
  | nil => rfl
  | cons kv args ih =>
    obtain ⟨here, behind⟩ := List.forall_mem_cons.mp filled
    obtain ⟨own, values⟩ := kv
    cases values with
    | nil => exact absurd rfl here
    | cons first rest =>
      change find argComparator ((own, first) :: flatView args) key = _
      rw [ArgMap.find, find_cons, find_cons]
      split
      · rfl
      · exact ih behind

theorem Fresh.viewsAgree (fresh : s.Fresh) (src : ArgSource) : s.ViewsAgree src := by
  have loaded := fresh.populateArgs src
  have view : (s.getArgs src).2 = (s.populateArgs src).unescapedArgs := by
    unfold getArgs RequestArgs.ensureArgsViewCached
    dsimp only
    split
    · rename_i built
      exact (loaded.view built).2
    · rfl
  have flat : (s.getArgsFlat src).2 = flatView (s.populateArgs src).unescapedArgs := by
    unfold getArgsFlat RequestArgs.ensureArgsFlatViewCached
    dsimp only
    split
    · rename_i built
      exact (loaded.flat built).2
    · rfl
  refine ⟨fun key values found => ?_, fun key missing => ?_⟩
  · rw [view] at found
    rw [flat, find_flatView loaded.valid.filled, getArg, getArgFlat]
    cases values with
    | nil => exact absurd rfl (loaded.valid.find_ne_nil found)
    | cons first rest => simp [found]
  · rw [view] at missing
    rw [flat, find_flatView loaded.valid.filled, getArg, getArgFlat]
    simp [missing]

/-- As long as no mutator runs behind a `get_args_flat`, the four readers agree
    at every point of every run. -/
theorem argument_views_agree (src : ArgSource) (ops : List ArgOp) (order : FlatReadsLast ops) :
    (ops.foldl (step src) {}).ViewsAgree src :=
  (fresh_run src fresh_new (fun built => (nomatch built)) order).viewsAgree src

theorem interleaved_views_agree :
    ([ArgOp.setArg "id".toList "7".toList 100, .read .getArgs, .growLastArg "id".toList "8".toList,
      .read (.getArg "id".toList), .setArgFlat "q".toList "z".toList 1, .read .getArgsFlat].foldl
        (step ⟨[("q".toList, some "a%20b".toList)], none, 0, 0⟩) {}).ViewsAgree
      ⟨[("q".toList, some "a%20b".toList)], none, 0, 0⟩ :=
  argument_views_agree _ _ (by decide)

/-- `set_arg` behind a `get_args_flat`: three readers have the key, the fourth
    serves the view it built before. -/
theorem flat_view_misses_later_argument :
    let s := [ArgOp.read .getArgsFlat, .setArg "a".toList "1".toList 100].foldl
      (step ⟨[], none, 0, 0⟩) {}
    (s.getArgs ⟨[], none, 0, 0⟩).2.find "a".toList = some ["1".toList] ∧
      (s.getArg ⟨[], none, 0, 0⟩ "a".toList).2 = ["1".toList] ∧
      (s.getArgFlat ⟨[], none, 0, 0⟩ "a".toList).2 = some "1".toList ∧
      find argComparator (s.getArgsFlat ⟨[], none, 0, 0⟩).2 "a".toList = none := by
  decide

end RequestArgs
end HttpServer
