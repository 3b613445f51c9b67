import HttpServer.Lib.Recency
import HttpServer.Lib.UnorderedMap
import HttpServer.RouteTable

/-!
`route_cache` with its two linked structures: a list of entries in recency order
and a hash map from keys to list iterators. An iterator is the address of its
node, and using one whose node is not in the list is undefined, which is `none`
here. `find_by_view` walks a bucket by hand under its own copy of the hash.
-/
namespace HttpServer
open LruCache UnorderedMap

/-- `std::hash` on the two string types, which agree on equal characters. -/
structure StdHash where
  string : Str → UInt64
  stringView : Str → UInt64
  agree : ∀ s, stringView s = string s

def kHashMix : UInt64 := 0x9e3779b97f4a7c15

def cacheKeyHash (std : StdHash) (k : CacheKey) : UInt64 :=
  let h1 := std.string k.path
  let h2 := UInt64.ofNat k.method.index
  h1 ^^^ (h2 + kHashMix + (h1 <<< 6) + (h1 >>> 2))

structure CacheNode where
  node : Nat
  key : CacheKey
  value : CacheValue

structure CacheStore where
  maxEntries : Nat
  list : List CacheNode
  map : HashTable CacheKey Nat
  nextNode : Nat

/-- `list_.splice(list_.begin(), list_, it)`, with the node `it` points to. -/
def splice (it : Nat) (list : List CacheNode) : Option (CacheNode × List CacheNode) :=
  (list.find? fun n => n.node = it).map fun n => (n, n :: list.filter fun m => m.node ≠ it)

namespace CacheStore

/-- A new cache. `bucketCount` is what the standard library starts with. -/
def fresh (maxEntries bucketCount : Nat) : CacheStore := ⟨maxEntries, [], ⟨[], bucketCount⟩, 0⟩

def find (c : CacheStore) (key : CacheKey) : Option (CacheStore × Option CacheValue) :=
  match c.map.find key with
  | none => some (c, none)
  | some it => (splice it c.list).map fun moved => ({ c with list := moved.2 }, some moved.1.value)

def findByView (std : StdHash) (c : CacheStore) (method : HttpMethod) (path : Str) :
    Option (CacheStore × Option CacheValue) :=
  let h1 := std.stringView path
  let h2 := UInt64.ofNat method.index
  let bucketHash := h1 ^^^ (h2 + kHashMix + (h1 <<< 6) + (h1 >>> 2))
  if c.map.bucketCount = 0 then some (c, none)
  else
    let b := bucketHash.toNat % c.map.bucketCount
    match (c.map.bucket (cacheKeyHash std) b).find? fun e =>
      e.1.method = method ∧ e.1.path = path with
    | none => some (c, none)
    | some e =>
      (splice e.2 c.list).map fun moved => ({ c with list := moved.2 }, some moved.1.value)

/-- The rest of `insert` behind a miss: a new node in front, and the last one out
    when the map has grown too large. -/
def emplaceFront (policy : RehashPolicy) (c : CacheStore) (key : CacheKey) (value : CacheValue) :
    Option CacheStore :=
  let list := ⟨c.nextNode, key, value⟩ :: c.list
  let map := c.map.assign policy key c.nextNode
  if map.size > c.maxEntries then
    list.getLast?.map fun back => ⟨c.maxEntries, list.dropLast, map.erase back.key, c.nextNode + 1⟩
  else some ⟨c.maxEntries, list, map, c.nextNode + 1⟩

def insert (policy : RehashPolicy) (c : CacheStore) (key : CacheKey) (value : CacheValue) :
    Option CacheStore :=
  match c.map.find key with
  | some it => (splice it c.list).map fun moved =>
    { c with list := ⟨moved.1.node, moved.1.key, value⟩ :: moved.2.tail }
  | none => c.emplaceFront policy key value

def clear (c : CacheStore) : CacheStore := { c with list := [], map := c.map.clear }

def entries (c : CacheStore) : List (CacheKey × CacheValue) := c.list.map fun n => (n.key, n.value)

def links (list : List CacheNode) : List (CacheKey × Nat) := list.map fun n => (n.key, n.node)

theorem findByView_eq (std : StdHash) {c : CacheStore} (buckets : c.map.Bucketed)
    (method : HttpMethod) (path : Str) : c.findByView std method path = c.find ⟨method, path⟩ := by
  have hashed : std.stringView path ^^^ (UInt64.ofNat method.index + kHashMix +
      (std.stringView path <<< 6) + (std.stringView path >>> 2)) =
        cacheKeyHash std ⟨method, path⟩ := by
    rw [std.agree]
    rfl
  have same : (fun e : CacheKey × Nat => decide (e.1.method = method ∧ e.1.path = path)) =
      fun e => decide (e.1 = ⟨method, path⟩) := by
    funext e
    obtain ⟨⟨m, p⟩, it⟩ := e
    simp
  have walked := c.map.find_bucket (cacheKeyHash std) ⟨method, path⟩
  rw [findByView, find, hashed, same]
  by_cases empty : c.map.bucketCount = 0
  · have nothing : c.map.elements = [] := by
      by_contra held
      have some_ := buckets held
      omega
    rw [if_pos empty, HashTable.find, nothing]
    rfl
  · rw [if_neg empty, ← walked]
    dsimp only
    cases (c.map.bucket (cacheKeyHash std) ((cacheKeyHash std ⟨method, path⟩).toNat %
      c.map.bucketCount)).find? fun e => decide (e.1 = ⟨method, path⟩) with
    | none => rfl
    | some e => rfl

/-- The list holds the entries, and the map points from each key to its node. -/
structure Refines (c : CacheStore) (l : RouteCache) : Prop where
  entries : c.entries = l.entries
  capacity : c.maxEntries = l.capacity
  linked : c.map.elements.Perm (links c.list)
  nodes : (c.list.map CacheNode.node).Nodup
  allocated : ∀ n ∈ c.list, n.node < c.nextNode
  buckets : c.map.Bucketed

variable {list : List CacheNode} {n : CacheNode} {it : Nat}

theorem perm_cons_filter (nodes : (list.map CacheNode.node).Nodup) (listed : n ∈ list) :
    list.Perm (n :: list.filter fun m => m.node ≠ n.node) := by
  induction list with
  | nil => cases listed
  | cons m list ih =>
    obtain ⟨new, rest⟩ := List.nodup_cons.mp nodes
    rcases List.mem_cons.mp listed with rfl | later
    · have others : ∀ m ∈ list, decide (m.node ≠ n.node) = true := by
        intro m member
        simpa using fun same : m.node = n.node => new (same ▸ List.mem_map_of_mem member)
      rw [List.filter_cons_of_neg (by simp), List.filter_eq_self.mpr others]
    · have apart : m.node ≠ n.node := fun same => new (same ▸ List.mem_map_of_mem later)
      rw [List.filter_cons_of_pos (by simpa using apart)]
      exact ((ih rest later).cons m).trans (List.Perm.swap n m _)

variable {c : CacheStore} {l : RouteCache}

theorem Refines.entryKeys (refines : Refines c l) :
    l.entries.map Prod.fst = c.list.map CacheNode.key := by
  rw [← refines.entries, CacheStore.entries, List.map_map]
  rfl

theorem Refines.keys (refines : Refines c l) : (c.list.map CacheNode.key).Nodup := by
  rw [← refines.entryKeys]
  exact l.distinct

theorem Refines.mapKeys (refines : Refines c l) : c.map.keys.Perm (c.list.map CacheNode.key) := by
  have keys := refines.linked.map Prod.fst
  rw [links, List.map_map] at keys
  exact keys

variable {k : CacheKey}

theorem Refines.find_iff (refines : Refines c l) :
    c.map.find k = some it ↔ ∃ n ∈ c.list, n.key = k ∧ n.node = it := by
  rw [HashTable.find_eq_some_iff (refines.mapKeys.nodup_iff.mpr refines.keys),
    refines.linked.mem_iff, links]
  simp only [List.mem_map, Prod.mk.injEq]

theorem Refines.absent (refines : Refines c l) (missed : c.map.find k = none) :
    k ∉ l.entries.map Prod.fst := by
  intro listed
  rw [refines.entryKeys] at listed
  obtain ⟨n, member, rfl⟩ := List.mem_map.mp listed
  rw [refines.find_iff.mpr ⟨n, member, rfl, rfl⟩] at missed
  cases missed

theorem Refines.splice (refines : Refines c l) (found : c.map.find k = some it) :
    ∃ n ∈ c.list, n.key = k ∧ n.node = it ∧
      HttpServer.splice it c.list = some (n, n :: c.list.filter fun m => m.node ≠ n.node) := by
  obtain ⟨n, listed, key, node⟩ := refines.find_iff.mp found
  have reached : c.list.find? (fun m => m.node = it) = some n := by
    cases first : c.list.find? (fun m => m.node = it) with
    | none => exact absurd node (by simpa using List.find?_eq_none.mp first n listed)
    | some m =>
      have address : m.node = it := by simpa using List.find?_some first
      have member := List.mem_of_find?_eq_some first
      rw [List.inj_on_of_nodup_map refines.nodes member listed (address.trans node.symm)]
  exact ⟨n, listed, key, node, by rw [HttpServer.splice, reached, node]; rfl⟩

theorem Refines.promote (refines : Refines c l) (listed : n ∈ c.list) (value : CacheValue)
    (present : n.key ∈ l.entries.map Prod.fst) :
    Refines { c with
      list := ⟨n.node, n.key, value⟩ :: c.list.filter fun m => m.node ≠ n.node }
      (l.promote n.key value present) := by
  have sameNode : ∀ m ∈ c.list, m.node = n.node ↔ m.key = n.key := by
    intro m member
    constructor
    · intro same
      rw [List.inj_on_of_nodup_map refines.nodes member listed same]
    · intro same
      rw [List.inj_on_of_nodup_map refines.keys member listed same]
  have moved := perm_cons_filter refines.nodes listed
  constructor
  · have kept : (c.list.filter fun m => m.node ≠ n.node) =
        c.list.filter fun m => !decide (m.key = n.key) := by
      apply List.filter_congr
      intro m member
      simp [sameNode m member]
    simp only [CacheStore.entries, List.map_cons, Lru.promote, LruCache.others, ← refines.entries,
      List.filter_map, kept]
    rfl
  · exact refines.capacity
  · exact refines.linked.trans (moved.map _)
  · exact (moved.map CacheNode.node).nodup_iff.mp refines.nodes
  · intro m member
    rcases List.mem_cons.mp member with rfl | older
    · exact refines.allocated n listed
    · exact refines.allocated m (List.mem_of_mem_filter older)
  · exact refines.buckets

theorem Refines.allocate (refines : Refines c l) (policy : RehashPolicy) (v : CacheValue)
    (missed : c.map.find k = none) :
    (c.map.assign policy k c.nextNode).elements = (k, c.nextNode) :: c.map.elements ∧
      (c.map.assign policy k c.nextNode).Bucketed ∧
      ((⟨c.nextNode, k, v⟩ :: c.list).map CacheNode.node).Nodup ∧
      ((⟨c.nextNode, k, v⟩ :: c.list).map CacheNode.key).Nodup ∧
      ∀ n ∈ (⟨c.nextNode, k, v⟩ :: c.list : List CacheNode), n.node < c.nextNode + 1 := by
  have written : c.map.assign policy k c.nextNode = ⟨(k, c.nextNode) :: c.map.elements,
      policy.next (c.map.elements.length + 1) c.map.bucketCount⟩ := by
    rw [HashTable.assign, missed]
  rw [written]
  refine ⟨rfl, fun _ => policy.positive _ _, ?_, ?_, ?_⟩
  · refine List.nodup_cons.mpr ⟨fun listed => ?_, refines.nodes⟩
    obtain ⟨n, member, same⟩ := List.mem_map.mp listed
    have older := refines.allocated n member
    rw [same] at older
    exact absurd older (Nat.lt_irrefl _)
  · refine List.nodup_cons.mpr ⟨fun listed => ?_, refines.keys⟩
    obtain ⟨n, member, same⟩ := List.mem_map.mp listed
    rw [refines.find_iff.mpr ⟨n, member, same, rfl⟩] at missed
    cases missed
  · intro n listed
    rcases List.mem_cons.mp listed with rfl | older
    · exact Nat.lt_succ_self _
    · exact Nat.lt_succ_of_lt (refines.allocated n older)

theorem links_dropLast (keys : (list.map CacheNode.key).Nodup) {back : CacheNode}
    (last : list.getLast? = some back) :
    (links list).filter (fun e => e.1 ≠ back.key) = links list.dropLast := by
  have split : list.dropLast ++ [back] = list := List.dropLast_append_getLast? back last
  rw [← split, List.map_append] at keys
  have others : ∀ e ∈ links list.dropLast, decide (e.1 ≠ back.key) = true := by
    intro e listed
    obtain ⟨n, member, rfl⟩ := List.mem_map.mp listed
    have apart := (List.nodup_append.mp keys).2.2 n.key (List.mem_map_of_mem member) back.key
      (by simp)
    simpa using apart
  have whole : links list = links list.dropLast ++ [(back.key, back.node)] := by
    rw [← split, links, links, List.map_append, List.dropLast_concat]
    rfl
  rw [whole, List.filter_append, List.filter_eq_self.mpr others]
  simp

theorem Refines.emplaceFront (refines : Refines c l) (policy : RehashPolicy) {v : CacheValue}
    (missed : c.map.find k = none) (absent : k ∉ l.entries.map Prod.fst) :
    ∃ c', c.emplaceFront policy k v = some c' ∧ Refines c' (l.pushFront k v absent) := by
  obtain ⟨elements, buckets, nodes, keys, allocated⟩ := refines.allocate policy v missed
  have size : (c.map.assign policy k c.nextNode).size = c.list.length + 1 := by
    rw [HashTable.size, elements, List.length_cons, refines.linked.length_eq, links, List.length_map]
  have length : l.entries.length = c.list.length := by
    rw [← refines.entries, CacheStore.entries, List.length_map]
  have bounded := l.bounded
  have linked : (c.map.assign policy k c.nextNode).elements.Perm
      (links (⟨c.nextNode, k, v⟩ :: c.list)) := by
    rw [elements]
    exact refines.linked.cons _
  have taken : (l.pushFront k v absent).entries =
      ((⟨c.nextNode, k, v⟩ :: c.list : List CacheNode).map fun n => (n.key, n.value)).take
        c.maxEntries := by
    have pushed : (l.pushFront k v absent).entries = ((k, v) :: l.entries).take l.capacity := rfl
    rw [pushed, ← refines.entries, refines.capacity]
    rfl
  rw [CacheStore.emplaceFront, size]
  split
  · -- one entry too many: the last one goes
    rename_i full
    have capacity := refines.capacity
    have last := List.getLast?_eq_some_getLast
      (List.cons_ne_nil (⟨c.nextNode, k, v⟩ : CacheNode) c.list)
    have shorter := List.dropLast_sublist (⟨c.nextNode, k, v⟩ :: c.list : List CacheNode)
    rw [last]
    refine ⟨_, rfl, ?_, refines.capacity, ?_, nodes.sublist (shorter.map _),
      fun n listed => allocated n (shorter.subset listed), ?_⟩
    · rw [taken, CacheStore.entries, List.map_dropLast, List.dropLast_eq_take, List.length_map,
        List.length_cons]
      congr 1
      omega
    · rw [← links_dropLast keys last]
      exact linked.filter _
    · intro held
      refine buckets fun none_ => held ?_
      simp [HashTable.erase, none_]
  · rename_i room
    refine ⟨_, rfl, ?_, refines.capacity, linked, nodes, allocated, buckets⟩
    rw [taken, List.take_of_length_le]
    · rfl
    · rw [List.length_map, List.length_cons]
      omega

theorem Refines.find (refines : Refines c l) (k : CacheKey) :
    ∃ c', c.find k = some (c', (l.find k).2) ∧ Refines c' (l.find k).1 := by
  rw [CacheStore.find]
  cases found : c.map.find k with
  | none =>
    have absent := refines.absent found
    rcases Lru.find_cases l k with miss | ⟨v, present, -, -⟩
    · rw [miss]
      exact ⟨c, rfl, refines⟩
    · exact absurd present absent
  | some it =>
    obtain ⟨n, listed, rfl, rfl, moved⟩ := refines.splice found
    have stored : (n.key, n.value) ∈ l.entries := by
      rw [← refines.entries]
      exact List.mem_map.mpr ⟨n, listed, rfl⟩
    obtain ⟨present, hit⟩ := Lru.find_of_mem stored
    dsimp only
    rw [hit, moved]
    exact ⟨_, rfl, refines.promote listed n.value present⟩

theorem Refines.insert (refines : Refines c l) (policy : RehashPolicy) (k : CacheKey)
    (v : CacheValue) : ∃ c', c.insert policy k v = some c' ∧ Refines c' (l.insert k v) := by
  rw [CacheStore.insert]
  cases found : c.map.find k with
  | some it =>
    obtain ⟨n, listed, rfl, rfl, moved⟩ := refines.splice found
    have present : n.key ∈ l.entries.map Prod.fst := by
      rw [refines.entryKeys]
      exact List.mem_map_of_mem listed
    dsimp only
    rw [moved, Lru.insert, dif_pos present]
    exact ⟨_, rfl, refines.promote listed v present⟩
  | none =>
    have absent := refines.absent found
    rw [Lru.insert, dif_neg absent]
    exact refines.emplaceFront policy found absent

theorem Refines.clear (refines : Refines c l) : Refines c.clear l.clear where
  entries := rfl
  capacity := refines.capacity
  linked := List.Perm.refl _
  nodes := List.nodup_nil
  allocated := fun _ listed => nomatch listed
  buckets := fun held => absurd rfl held

end CacheStore

inductive CacheCall where
  | find (key : CacheKey)
  | findByView (method : HttpMethod) (path : Str)
  | insert (key : CacheKey) (value : CacheValue)
  | clear

def CacheCall.call : CacheCall → Call CacheKey CacheValue
  | find key => .find key
  | findByView method path => .find ⟨method, path⟩
  | insert key value => .insert key value
  | clear => .clear

namespace CacheStore
variable (std : StdHash) (policy : RehashPolicy)

def answer (c : CacheStore) : CacheCall → Option (CacheStore × Option CacheValue)
  | .find key => c.find key
  | .findByView method path => c.findByView std method path
  | .insert key value => (c.insert policy key value).map fun c => (c, none)
  | .clear => some (c.clear, none)

def run (maxEntries bucketCount : Nat) : List CacheCall → Option CacheStore
  | [] => some (fresh maxEntries bucketCount)
  | call :: past =>
    (run maxEntries bucketCount past).bind fun c => (c.answer std policy call).map (·.1)

variable {c : CacheStore} {l : RouteCache}

theorem Refines.answer (refines : Refines c l) (call : CacheCall) :
    ∃ c', c.answer std policy call = some (c', (l.answer call.call).2) ∧
      Refines c' (l.answer call.call).1 := by
  cases call with
  | find key => exact refines.find key
  | findByView method path =>
    rw [CacheStore.answer, findByView_eq std refines.buckets]
    exact refines.find ⟨method, path⟩
  | insert key value =>
    obtain ⟨c', done, refined⟩ := refines.insert policy key value
    exact ⟨c', by rw [CacheStore.answer, done]; rfl, refined⟩
  | clear => exact ⟨c.clear, rfl, refines.clear⟩

theorem refines_run {maxEntries : Nat} (positive : 0 < maxEntries) (bucketCount : Nat)
    (past : List CacheCall) : ∃ c, run std policy maxEntries bucketCount past = some c ∧
      Refines c (Lru.run maxEntries positive (past.map CacheCall.call)) := by
  induction past with
  | nil =>
    refine ⟨fresh maxEntries bucketCount, rfl, rfl, rfl, List.Perm.refl _, List.nodup_nil, ?_, ?_⟩
    · intro n listed
      cases listed
    · intro held
      exact absurd rfl held
  | cons call past ih =>
    obtain ⟨c, reached, refines⟩ := ih
    obtain ⟨c', answered, refined⟩ := refines.answer std policy call
    exact ⟨c', by rw [run, reached, Option.bind_some, answered]; rfl, refined⟩

/-- The cache after a history of calls: a bounded map that keeps the most
    recently used keys with their last inserted values. -/
structure BoundedLru (n : Nat) (past : List CacheCall) (c : CacheStore) : Prop where
  sameKeys : c.map.keys.Perm (c.list.map CacheNode.key)
  noDuplicates : c.map.keys.Nodup ∧ (c.list.map CacheNode.key).Nodup
  recency : c.entries = reference n (past.map CacheCall.call)
  size : c.map.size ≤ n ∧ c.list.length ≤ n
  evicts : ∀ key value, key ∉ c.list.map CacheNode.key →
    ∃ c', c.insert policy key value = some c' ∧ c'.list.map CacheNode.key =
      key :: if c.list.length = n then (c.list.map CacheNode.key).dropLast
        else c.list.map CacheNode.key
  finds : ∀ key, ∃ c', c.find key =
    some (c', (reference n (past.map CacheCall.call)).lookup key)
  view : ∀ method path, c.findByView std method path = c.find ⟨method, path⟩

theorem Refines.evicts (refines : Refines c l) {key : CacheKey}
    (new : key ∉ c.list.map CacheNode.key) (value : CacheValue) :
    ∃ c', c.insert policy key value = some c' ∧ c'.list.map CacheNode.key =
      key :: if c.list.length = l.capacity then (c.list.map CacheNode.key).dropLast
        else c.list.map CacheNode.key := by
  have same : l.keys = c.list.map CacheNode.key := refines.entryKeys
  have length : l.entries.length = c.list.length := by
    rw [← refines.entries, CacheStore.entries, List.length_map]
  have bounded := l.bounded
  have positive := l.positive
  obtain ⟨room, succ⟩ := Nat.exists_eq_succ_of_ne_zero (Nat.ne_of_gt positive)
  obtain ⟨c', inserted, refined⟩ := refines.insert policy key value
  refine ⟨c', inserted, ?_⟩
  have keys := Lru.keys_insert l key value
  rw [same, if_neg new, succ, List.take_succ_cons] at keys
  rw [← refined.entryKeys]
  refine keys.trans (congrArg (key :: ·) ?_)
  split
  · rw [List.dropLast_eq_take, List.length_map]
    congr 1
    omega
  · rw [List.take_of_length_le]
    rw [List.length_map]
    omega

/-- After every history of calls the cache is a bounded map in recency order. -/
theorem route_cache_is_bounded_lru (n : Nat) (positive : 0 < n) (bucketCount : Nat)
    (past : List CacheCall) :
    ∃ c, run std policy n bucketCount past = some c ∧ BoundedLru std policy n past c := by
  obtain ⟨c, reached, refines⟩ := refines_run std policy positive bucketCount past
  have entries := refines.entries.trans (Lru.entries_run n positive (past.map CacheCall.call))
  have capacity := Lru.capacity_run n positive (past.map CacheCall.call)
  have bounded := (Lru.run n positive (past.map CacheCall.call)).bounded
  have length : c.list.length ≤ n := by
    rw [← refines.entries, CacheStore.entries, List.length_map, capacity] at bounded
    exact bounded
  have size : c.map.size = c.list.length := by
    rw [HashTable.size, refines.linked.length_eq, links, List.length_map]
  refine ⟨c, reached, refines.mapKeys, ⟨refines.mapKeys.nodup_iff.mpr refines.keys, refines.keys⟩,
    entries, ⟨size ▸ length, length⟩, ?_, ?_, fun method path => findByView_eq std refines.buckets _ _⟩
  · intro key value new
    have evicted := refines.evicts policy new value
    rw [capacity] at evicted
    exact evicted
  · intro key
    obtain ⟨c', found, -⟩ := refines.find key
    rw [Lru.find_value, Lru.entries_run] at found
    exact ⟨c', found⟩

theorem route_cache_of_one_entry :
    let std : StdHash := ⟨fun _ => 0, fun _ => 0, fun _ => rfl⟩
    let policy : RehashPolicy := ⟨fun size _ => size + 1, fun size _ => Nat.succ_pos size⟩
    let entry : CacheValue := ⟨⟨⟨0⟩, .resource 1, false⟩, []⟩
    let past : List CacheCall := [.findByView .get "/b".toList, .insert ⟨.get, "/b".toList⟩ entry,
      .insert ⟨.get, "/a".toList⟩ entry]
    0 < 1 ∧ ∃ c, run std policy 1 0 past = some c ∧ BoundedLru std policy 1 past c :=
  ⟨Nat.one_pos, route_cache_is_bounded_lru _ _ 1 Nat.one_pos 0 _⟩

end CacheStore
end HttpServer
