import HttpServer.Lib.Lru

/-!
What a least-recently-used map is for: it keeps the most recently used keys,
as many as fit, each with the value inserted last. The calls are listed newest
first. Inserting a key uses it, and so does finding it.
-/
namespace LruCache
variable {κ ν : Type} [DecidableEq κ]

inductive Call (κ ν : Type) where
  | find (k : κ)
  | insert (k : κ) (v : ν)
  | clear

def recency : List κ → List κ
  | [] => []
  | k :: used => k :: (recency used).filter fun j => !decide (j = k)

def mostRecent (n : Nat) (used : List κ) : List κ := (recency used).take n

def uses (n : Nat) : List (Call κ ν) → List κ
  | [] => []
  | .insert k _ :: past => k :: uses n past
  | .find k :: past =>
    if k ∈ mostRecent n (uses n past) then k :: uses n past else uses n past
  | .clear :: _ => []

def lastInserted (k : κ) : List (Call κ ν) → Option ν
  | [] => none
  | .insert j v :: past => if j = k then some v else lastInserted k past
  | .find _ :: past => lastInserted k past
  | .clear :: _ => none

/-- The entries a map of the capacity should have, the most recent first. -/
def reference (n : Nat) (past : List (Call κ ν)) : List (κ × ν) :=
  (mostRecent n (uses n past)).filterMap fun k => (lastInserted k past).map fun v => (k, v)

namespace Lru

def answer (c : Lru κ ν) : Call κ ν → Lru κ ν × Option ν
  | .find k => c.find k
  | .insert k v => (c.insert k v, none)
  | .clear => (c.clear, none)

def run (capacity : Nat) (positive : 0 < capacity) : List (Call κ ν) → Lru κ ν
  | [] => empty capacity positive
  | call :: past => ((run capacity positive past).answer call).1

end Lru

theorem recency_nodup (used : List κ) : (recency used).Nodup := by
  induction used with
  | nil => exact List.nodup_nil
  | cons k used ih =>
    apply List.nodup_cons.mpr
    exact ⟨by simp, ih.filter _⟩

variable {n : Nat} {k : κ}

theorem take_filter_of_mem {l : List κ} (distinct : l.Nodup) (early : k ∈ l.take (n + 1)) :
    (l.filter fun j => !decide (j = k)).take n =
      (l.take (n + 1)).filter fun j => !decide (j = k) := by
  induction l generalizing n with
  | nil => simp at early
  | cons a l ih =>
    obtain ⟨new, rest⟩ := List.nodup_cons.mp distinct
    by_cases here : a = k
    · subst here
      have kept : ∀ j ∈ l, (!decide (j = a)) = true := by
        intro j listed
        simpa using fun same : j = a => new (same ▸ listed)
      have tail : ∀ j ∈ l.take n, (!decide (j = a)) = true :=
        fun j listed => kept j (List.mem_of_mem_take listed)
      simp [List.filter_eq_self.mpr kept, List.filter_eq_self.mpr tail]
    · have later : k ∈ l.take n := by simpa [Ne.symm here] using early
      cases n with
      | zero => simp at later
      | succ n => simpa [here] using ih rest later

theorem take_filter_of_not_mem {l : List κ} (late : k ∉ l.take n) :
    (l.filter fun j => !decide (j = k)).take n = l.take n := by
  induction l generalizing n with
  | nil => rfl
  | cons a l ih =>
    cases n with
    | zero => rfl
    | succ n =>
      simp only [List.take_succ_cons, List.mem_cons, not_or] at late
      have other : a ≠ k := fun same => late.1 same.symm
      simpa [other] using ih late.2

theorem mostRecent_cons_of_mem {used : List κ} (recent : k ∈ mostRecent n used) :
    mostRecent n (k :: used) = k :: (mostRecent n used).filter fun j => !decide (j = k) := by
  cases n with
  | zero => simp [mostRecent] at recent
  | succ n =>
    rw [mostRecent, recency, List.take_succ_cons, take_filter_of_mem (recency_nodup used) recent]
    rfl

theorem mostRecent_cons_of_not_mem {used : List κ} (absent : k ∉ mostRecent n used) :
    mostRecent n (k :: used) = (k :: mostRecent n used).take n := by
  cases n with
  | zero => rfl
  | succ n =>
    have late : k ∉ (recency used).take n :=
      fun listed => absent (List.take_subset_take_left _ (Nat.le_succ n) listed)
    rw [mostRecent, recency, List.take_succ_cons, take_filter_of_not_mem late, List.take_succ_cons,
      mostRecent, List.take_take, Nat.min_eq_left (Nat.le_succ n)]

namespace Lru

def keys (c : Lru κ ν) : List κ := c.entries.map Prod.fst

theorem keys_promote (c : Lru κ ν) (k : κ) (v : ν) (present : k ∈ c.entries.map Prod.fst) :
    (c.promote k v present).keys = k :: c.keys.filter fun j => !decide (j = k) := by
  simp only [keys, promote, others, List.map_cons, List.filter_map]
  rfl

theorem keys_insert (c : Lru κ ν) (k : κ) (v : ν) :
    (c.insert k v).keys =
      if k ∈ c.keys then k :: c.keys.filter fun j => !decide (j = k)
      else (k :: c.keys).take c.capacity := by
  by_cases present : k ∈ c.entries.map Prod.fst
  · rw [insert, dif_pos present, keys_promote, if_pos]
    exact present
  · rw [insert, dif_neg present, if_neg]
    · simp [keys, pushFront, List.map_take]
    · exact present

theorem keys_find (c : Lru κ ν) (k : κ) :
    (c.find k).1.keys =
      if k ∈ c.keys then k :: c.keys.filter fun j => !decide (j = k) else c.keys := by
  unfold find
  split
  · rename_i missed
    have absent : k ∉ c.keys := by
      intro listed
      obtain ⟨e, member, rfl⟩ := List.mem_map.mp listed
      simpa using List.lookup_eq_none_iff.mp missed e member
    rw [if_neg absent]
  · rename_i v found
    have present : k ∈ c.entries.map Prod.fst := List.mem_map.mpr ⟨_, mem_of_lookup found, rfl⟩
    rw [keys_promote, if_pos]
    exact present

theorem capacity_answer (c : Lru κ ν) (call : Call κ ν) :
    (c.answer call).1.capacity = c.capacity := by
  cases call with
  | find k =>
    rcases find_cases c k with miss | ⟨v, present, -, hit⟩
    · rw [answer, miss]
    · rw [answer, hit]
      rfl
  | insert k v =>
    rw [answer, insert]
    split
    · rfl
    · rfl
  | clear => rfl

variable (capacity : Nat) (positive : 0 < capacity) (past : List (Call κ ν))

theorem capacity_run : (run capacity positive past).capacity = capacity := by
  induction past with
  | nil => rfl
  | cons call past ih => exact (capacity_answer _ call).trans ih

theorem keys_run :
    (run capacity positive past).keys = mostRecent capacity (uses capacity past) := by
  induction past with
  | nil => simp [run, empty, keys, uses, mostRecent, recency]
  | cons call past ih =>
    cases call with
    | find k =>
      rw [run, answer, keys_find, ih, uses]
      split
      · rename_i recent
        exact (mostRecent_cons_of_mem recent).symm
      · rfl
    | insert k v =>
      rw [run, answer, keys_insert, ih, capacity_run, uses]
      split
      · rename_i recent
        exact (mostRecent_cons_of_mem recent).symm
      · rename_i absent
        exact (mostRecent_cons_of_not_mem absent).symm
    | clear => simp [run, answer, clear, empty, keys, uses, mostRecent, recency]

theorem values_run :
    Holds (fun k v => lastInserted k past = some v) (run capacity positive past) := by
  induction past with
  | nil => exact holds_empty capacity positive
  | cons call past ih =>
    cases call with
    | find k => exact holds_find ih
    | clear => exact holds_clear
    | insert k v =>
      intro j w member
      rw [lastInserted]
      have cases_ : (j = k ∧ w = v) ∨ (j ≠ k ∧ (j, w) ∈ (run capacity positive past).entries) := by
        rw [run, answer, insert] at member
        split at member
        · rcases List.mem_cons.mp member with same | older
          · exact Or.inl (Prod.mk.inj same)
          · obtain ⟨stored, other⟩ := List.mem_filter.mp older
            exact Or.inr ⟨by simpa using other, stored⟩
        · rename_i absent
          rcases List.mem_cons.mp (List.mem_of_mem_take member) with same | older
          · exact Or.inl (Prod.mk.inj same)
          · refine Or.inr ⟨?_, older⟩
            rintro rfl
            exact absent (List.mem_map.mpr ⟨_, older, rfl⟩)
      rcases cases_ with ⟨rfl, rfl⟩ | ⟨other, stored⟩
      · rw [if_pos rfl]
      · rw [if_neg (Ne.symm other)]
        exact ih j w stored

/-- A least-recently-used map is its reference. -/
theorem entries_run : (run capacity positive past).entries = reference capacity past := by
  have pairs {l : List (κ × ν)} (values : ∀ k v, (k, v) ∈ l → lastInserted k past = some v) :
      (l.map Prod.fst).filterMap (fun k => (lastInserted k past).map fun v => (k, v)) = l := by
    induction l with
    | nil => rfl
    | cons e l ih =>
      have first := values e.1 e.2 List.mem_cons_self
      have rest := ih fun k v listed => values k v (List.mem_cons_of_mem e listed)
      rw [List.map_cons, List.filterMap_cons, first, Option.map_some, rest]
  rw [reference, ← keys_run capacity positive]
  exact (pairs (values_run capacity positive past)).symm

end Lru
end LruCache
