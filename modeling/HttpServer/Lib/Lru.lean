import Mathlib.Data.List.Nodup

/-!
A bounded least-recently-used map. The most recent entry stands first, keys
are distinct and the capacity is never exceeded; the structure carries these
facts. `Holds` is the rule its users reason with: a relation between keys and
values that every entry satisfies survives each operation.
-/
namespace LruCache
variable {κ ν : Type}

structure Lru (κ ν : Type) where
  capacity : Nat
  entries : List (κ × ν)
  positive : 0 < capacity
  distinct : (entries.map Prod.fst).Nodup
  bounded : entries.length ≤ capacity

def others [DecidableEq κ] (k : κ) (entries : List (κ × ν)) : List (κ × ν) :=
  entries.filter fun e => !decide (e.1 = k)

variable {k : κ} {entries : List (κ × ν)}

theorem others_shorter [DecidableEq κ] (present : k ∈ entries.map Prod.fst) :
    (others k entries).length < entries.length := by
  obtain ⟨e, member, same⟩ := List.mem_map.mp present
  apply List.length_filter_lt_length_iff_exists.mpr
  exact ⟨e, member, by simp [same]⟩

theorem others_distinct [DecidableEq κ] (v : ν) (distinct : (entries.map Prod.fst).Nodup) :
    (((k, v) :: others k entries).map Prod.fst).Nodup := by
  rw [List.map_cons, List.nodup_cons]
  constructor
  · simp [others]
  · exact distinct.sublist (List.filter_sublist.map Prod.fst)

theorem mem_of_lookup [DecidableEq κ] {v : ν} (found : entries.lookup k = some v) :
    (k, v) ∈ entries := by
  obtain ⟨before, after, rfl, -⟩ := List.lookup_eq_some_iff.mp found
  simp

namespace Lru

def empty (capacity : Nat) (positive : 0 < capacity) : Lru κ ν where
  capacity := capacity
  entries := []
  positive := positive
  distinct := by simp
  bounded := by simp

def promote [DecidableEq κ] (c : Lru κ ν) (k : κ) (v : ν) (present : k ∈ c.entries.map Prod.fst) : Lru κ ν where
  capacity := c.capacity
  entries := (k, v) :: others k c.entries
  positive := c.positive
  distinct := others_distinct v c.distinct
  bounded := Nat.le_trans (others_shorter present) c.bounded

/-- Put an absent key in front and drop the last entry when that is one too many. -/
def pushFront (c : Lru κ ν) (k : κ) (v : ν) (absent : k ∉ c.entries.map Prod.fst) : Lru κ ν where
  capacity := c.capacity
  entries := ((k, v) :: c.entries).take c.capacity
  positive := c.positive
  distinct := by
    have all : (((k, v) :: c.entries).map Prod.fst).Nodup := by
      rw [List.map_cons, List.nodup_cons]
      exact ⟨absent, c.distinct⟩
    exact all.sublist ((List.take_sublist _ _).map Prod.fst)
  bounded := by
    rw [List.length_take]
    exact Nat.min_le_left _ _

def find [DecidableEq κ] (c : Lru κ ν) (k : κ) : Lru κ ν × Option ν :=
  match found : c.entries.lookup k with
  | none => (c, none)
  | some v => (c.promote k v (List.mem_map.mpr ⟨_, mem_of_lookup found, rfl⟩), some v)

def insert [DecidableEq κ] (c : Lru κ ν) (k : κ) (v : ν) : Lru κ ν :=
  if present : k ∈ c.entries.map Prod.fst then c.promote k v present else c.pushFront k v present

def clear (c : Lru κ ν) : Lru κ ν := empty c.capacity c.positive

def Holds (P : κ → ν → Prop) (c : Lru κ ν) : Prop := ∀ k v, (k, v) ∈ c.entries → P k v

variable {P : κ → ν → Prop} {c : Lru κ ν}

theorem holds_empty (capacity : Nat) (positive : 0 < capacity) :
    Holds P (empty capacity positive : Lru κ ν) := by
  intro k v member
  simp [empty] at member

theorem holds_clear : Holds P c.clear := holds_empty c.capacity c.positive

variable {k : κ} {v : ν}

theorem holds_promote [DecidableEq κ] (present : k ∈ c.entries.map Prod.fst) (all : Holds P c)
    (new : P k v) : Holds P (c.promote k v present) := by
  intro k' v' member
  rcases List.mem_cons.mp member with same | older
  · obtain ⟨rfl, rfl⟩ := Prod.mk.inj same
    exact new
  · exact all k' v' (List.mem_of_mem_filter older)

theorem holds_pushFront (absent : k ∉ c.entries.map Prod.fst) (all : Holds P c) (new : P k v) :
    Holds P (c.pushFront k v absent) := by
  intro k' v' member
  rcases List.mem_cons.mp (List.mem_of_mem_take member) with same | older
  · obtain ⟨rfl, rfl⟩ := Prod.mk.inj same
    exact new
  · exact all k' v' older

theorem holds_insert [DecidableEq κ] (all : Holds P c) (new : P k v) : Holds P (c.insert k v) := by
  unfold insert
  split
  · exact holds_promote _ all new
  · exact holds_pushFront _ all new

theorem find_cases [DecidableEq κ] (c : Lru κ ν) (k : κ) :
    c.find k = (c, none) ∨
      ∃ v present, (k, v) ∈ c.entries ∧ c.find k = (c.promote k v present, some v) := by
  unfold find
  split
  · exact Or.inl rfl
  · rename_i v found
    exact Or.inr ⟨v, List.mem_map.mpr ⟨_, mem_of_lookup found, rfl⟩, mem_of_lookup found, rfl⟩

theorem find_value [DecidableEq κ] (c : Lru κ ν) (k : κ) : (c.find k).2 = c.entries.lookup k := by
  unfold find
  split
  · rename_i missed
    exact missed.symm
  · rename_i v found
    exact found.symm

theorem find_of_mem [DecidableEq κ] (stored : (k, v) ∈ c.entries) :
    ∃ present, c.find k = (c.promote k v present, some v) := by
  rcases find_cases c k with miss | ⟨w, present, member, hit⟩
  · unfold find at miss
    split at miss
    · rename_i missed
      simpa using List.lookup_eq_none_iff.mp missed (k, v) stored
    · cases congrArg Prod.snd miss
  · have same := List.inj_on_of_nodup_map c.distinct member stored rfl
    rw [(Prod.mk.inj same).2] at hit
    exact ⟨present, hit⟩

theorem holds_find [DecidableEq κ] (all : Holds P c) : Holds P (c.find k).1 := by
  rcases find_cases c k with miss | ⟨v, present, member, hit⟩
  · rw [miss]
    exact all
  · rw [hit]
    exact holds_promote present all (all k v member)

theorem find_sound [DecidableEq κ] (all : Holds P c) (hit : (c.find k).2 = some v) : P k v := by
  rcases find_cases c k with miss | ⟨w, present, member, found⟩
  · rw [miss] at hit
    cases hit
  · rw [found] at hit
    cases hit
    exact all k v member

end Lru
end LruCache
