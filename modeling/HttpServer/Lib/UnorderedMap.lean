import Mathlib.Data.List.Perm.Basic
import HttpServer.Lib.Assoc

/-!
An unordered associative container with its buckets. Bucket `b` holds the
elements whose hash is `b` modulo the number of buckets. A container that has
never held anything may have no buckets; how many there are after an insertion
is up to the implementation, as long as there is one.
-/
namespace UnorderedMap
variable {κ ν : Type}

structure HashTable (κ ν : Type) where
  elements : List (κ × ν)
  bucketCount : Nat

/-- The number of buckets after an insertion, given the size it leads to and the
    number before. -/
structure RehashPolicy where
  next : Nat → Nat → Nat
  positive : ∀ size count, 0 < next size count

namespace HashTable

def size (t : HashTable κ ν) : Nat := t.elements.length

def keys (t : HashTable κ ν) : List κ := t.elements.map Prod.fst

def bucket (hash : κ → UInt64) (t : HashTable κ ν) (b : Nat) : List (κ × ν) :=
  t.elements.filter fun e => (hash e.1).toNat % t.bucketCount = b

def clear (t : HashTable κ ν) : HashTable κ ν := { t with elements := [] }

variable [DecidableEq κ]

def find (t : HashTable κ ν) (k : κ) : Option ν := t.elements.lookup k

/-- `operator[]` and an assignment to what it returns. -/
def assign (policy : RehashPolicy) (t : HashTable κ ν) (k : κ) (v : ν) : HashTable κ ν :=
  match t.find k with
  | some _ =>
    { t with elements := t.elements.map fun e => if e.1 = k then (k, v) else e }
  | none => ⟨(k, v) :: t.elements, policy.next (t.elements.length + 1) t.bucketCount⟩

def erase (t : HashTable κ ν) (k : κ) : HashTable κ ν :=
  { t with elements := t.elements.filter fun e => e.1 ≠ k }

def Bucketed (t : HashTable κ ν) : Prop := t.elements ≠ [] → 0 < t.bucketCount

theorem find_bucket (hash : κ → UInt64) (t : HashTable κ ν) (k : κ) :
    ((t.bucket hash ((hash k).toNat % t.bucketCount)).find? fun e => e.1 = k).map Prod.snd =
      t.find k := by
  unfold bucket find
  induction t.elements with
  | nil => rfl
  | cons e elements ih =>
    rw [Assoc.lookup_cons_if]
    by_cases same : e.1 = k
    · simp [same]
    · rw [if_neg same, ← ih, List.filter_cons]
      split
      · simp [same]
      · rfl

theorem find_eq_some_iff {t : HashTable κ ν} (distinct : t.keys.Nodup) {k : κ} {v : ν} :
    t.find k = some v ↔ (k, v) ∈ t.elements := by
  constructor
  · exact Assoc.mem_of_lookup
  · intro listed
    cases found : t.find k with
    | none => exact absurd rfl ((Assoc.lookup_eq_none_iff_keys _ _).mp found (k, v) listed)
    | some w =>
      have stored := Assoc.mem_of_lookup found
      rw [Prod.mk.inj (List.inj_on_of_nodup_map distinct stored listed rfl) |>.2]

end HashTable
end UnorderedMap
