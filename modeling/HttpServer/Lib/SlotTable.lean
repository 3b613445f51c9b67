import Mathlib.Data.List.Nodup
import Mathlib.Logic.Function.Basic

/-!
Tables of numbered registrations. Each key has a list of slots, in the order
they were added, and a gate that callers read before they look at the list.
Slot numbers come from one counter for the whole table and are never reused.
-/
namespace Slots
open Function (update update_self update_of_ne)

structure Slot (κ : Type) where
  slotId : Nat
  fn : κ
  deriving DecidableEq, Repr

theorem filter_slotId {κ : Type} {l : List (Slot κ)} (distinct : (l.map (·.slotId)).Nodup)
    {e : Slot κ} (listed : e ∈ l) : l.filter (fun d => d.slotId = e.slotId) = [e] := by
  induction l with
  | nil => cases listed
  | cons head rest ih =>
    obtain ⟨first, others⟩ := List.nodup_cons.mp distinct
    rcases List.mem_cons.mp listed with rfl | later
    · rw [List.filter_cons_of_pos (by simp)]
      refine congrArg (e :: ·) (List.filter_eq_nil_iff.mpr fun d member same => first ?_)
      exact List.mem_map.mpr ⟨d, member, of_decide_eq_true same⟩
    · have apart : head.slotId ≠ e.slotId := by
        intro same
        exact first (List.mem_map.mpr ⟨e, later, same.symm⟩)
      rw [List.filter_cons_of_neg (by simpa using apart)]
      exact ih others later

structure SlotTable (φ κ : Type) where
  nextSlotId : Nat
  hooks : φ → List (Slot κ)
  gate : φ → Bool
  fresh : ∀ p, ∀ e ∈ hooks p, e.slotId < nextSlotId
  distinct : ∀ p, ((hooks p).map (·.slotId)).Nodup
  gated : ∀ p, hooks p ≠ [] → gate p = true

namespace SlotTable
variable {φ κ : Type}

def empty : SlotTable φ κ where
  nextSlotId := 1
  hooks _ := []
  gate _ := false
  fresh := by simp
  distinct := by simp
  gated := by simp

def Leads (t : SlotTable φ κ) (p : φ) (e : Slot κ) : Prop := ∃ rest, t.hooks p = e :: rest

variable {t : SlotTable φ κ}

theorem Leads.gate_open {p : φ} {e : Slot κ} (leads : t.Leads p e) : t.gate p = true := by
  obtain ⟨rest, first⟩ := leads
  refine t.gated p ?_
  rw [first]
  exact List.cons_ne_nil e rest

theorem Leads.slotId_lt {p : φ} {e : Slot κ} (leads : t.Leads p e) : e.slotId < t.nextSlotId := by
  obtain ⟨rest, first⟩ := leads
  refine t.fresh p e ?_
  rw [first]
  exact List.mem_cons_self

/-- A gate that stands open has a slot behind it, up to excused keys. -/
def Shut (t : SlotTable φ κ) (excused : φ → Prop) : Prop :=
  ∀ p, t.gate p = true → t.hooks p ≠ [] ∨ excused p

theorem shut_empty (excused : φ → Prop) : (empty : SlotTable φ κ).Shut excused := by
  intro p opened
  cases opened

theorem Shut.mono {excused more : φ → Prop} (shut : t.Shut excused)
    (weaker : ∀ p, excused p → more p) : t.Shut more :=
  fun p opened => (shut p opened).imp_right (weaker p)

variable [DecidableEq φ]

def push (t : SlotTable φ κ) (p : φ) (fn : κ) : SlotTable φ κ where
  nextSlotId := t.nextSlotId + 1
  hooks := update t.hooks p (t.hooks p ++ [⟨t.nextSlotId, fn⟩])
  gate := update t.gate p true
  fresh := by
    intro q e member
    rcases eq_or_ne q p with rfl | other
    · rw [update_self, List.mem_append, List.mem_singleton] at member
      rcases member with old | rfl
      · exact Nat.lt_succ_of_lt (t.fresh q e old)
      · exact Nat.lt_succ_self _
    · rw [update_of_ne other] at member
      exact Nat.lt_succ_of_lt (t.fresh q e member)
  distinct := by
    intro q
    rcases eq_or_ne q p with rfl | other
    · rw [update_self, List.map_append, List.map_singleton, ← List.concat_eq_append]
      refine List.Nodup.concat ?_ (t.distinct q)
      intro taken
      obtain ⟨e, member, same⟩ := List.mem_map.mp taken
      have below : e.slotId < t.nextSlotId := t.fresh q e member
      exact Nat.ne_of_lt below same
    · rw [update_of_ne other]
      exact t.distinct q
  gated := by
    intro q used
    rcases eq_or_ne q p with rfl | other
    · exact update_self q true t.gate
    · rw [update_of_ne other] at used ⊢
      exact t.gated q used

def erase (t : SlotTable φ κ) (p : φ) (id : Nat) : SlotTable φ κ where
  nextSlotId := t.nextSlotId
  hooks := update t.hooks p ((t.hooks p).eraseP (·.slotId = id))
  gate := t.gate
  fresh := by
    intro q e member
    rcases eq_or_ne q p with rfl | other
    · rw [update_self] at member
      exact t.fresh q e (List.mem_of_mem_eraseP member)
    · rw [update_of_ne other] at member
      exact t.fresh q e member
  distinct := by
    intro q
    rcases eq_or_ne q p with rfl | other
    · rw [update_self]
      exact (t.distinct q).sublist (List.eraseP_sublist.map _)
    · rw [update_of_ne other]
      exact t.distinct q
  gated := by
    intro q used
    rcases eq_or_ne q p with rfl | other
    · rw [update_self] at used
      refine t.gated q fun none_left => used ?_
      rw [none_left, List.eraseP_nil]
    · rw [update_of_ne other] at used
      exact t.gated q used

def closeIfEmpty (t : SlotTable φ κ) (p : φ) : SlotTable φ κ where
  nextSlotId := t.nextSlotId
  hooks := t.hooks
  gate := if (t.hooks p).isEmpty then update t.gate p false else t.gate
  fresh := t.fresh
  distinct := t.distinct
  gated := by
    intro q used
    split
    · rename_i closed
      rcases eq_or_ne q p with rfl | other
      · exact absurd (List.isEmpty_iff.mp closed) used
      · rw [update_of_ne other]
        exact t.gated q used
    · exact t.gated q used

def openGate (t : SlotTable φ κ) (p : φ) : SlotTable φ κ where
  nextSlotId := t.nextSlotId
  hooks := t.hooks
  gate := update t.gate p true
  fresh := t.fresh
  distinct := t.distinct
  gated := by
    intro q used
    by_cases same : q = p
    · rw [same, update_self]
    · rw [update_of_ne same]
      exact t.gated q used

def holds (t : SlotTable φ κ) (p : φ) (id : Nat) : Bool := (t.hooks p).any (·.slotId = id)

namespace Shut
variable {t : SlotTable φ κ} {excused : φ → Prop}

theorem push (shut : t.Shut excused) (p : φ) (fn : κ) : (t.push p fn).Shut excused := by
  intro q opened
  rcases eq_or_ne q p with rfl | other
  · exact Or.inl (by simp [SlotTable.push])
  · simp only [SlotTable.push, update_of_ne other] at opened ⊢
    exact shut q opened

theorem openGate (shut : t.Shut excused) {p : φ} (excuse : excused p) :
    (t.openGate p).Shut excused := by
  intro q opened
  rcases eq_or_ne q p with rfl | other
  · exact Or.inr excuse
  · simp only [SlotTable.openGate, update_of_ne other] at opened ⊢
    exact shut q opened

theorem erase (shut : t.Shut excused) {p : φ} (id : Nat) (excuse : excused p) :
    (t.erase p id).Shut excused := by
  intro q opened
  rcases eq_or_ne q p with rfl | other
  · exact Or.inr excuse
  · simp only [SlotTable.erase, update_of_ne other] at opened ⊢
    exact shut q opened

theorem erase_close (shut : t.Shut excused) (p : φ) (id : Nat) :
    ((t.erase p id).closeIfEmpty p).Shut excused := by
  intro q opened
  rcases eq_or_ne q p with rfl | other
  · refine Or.inl fun none_left => ?_
    have empty : ((t.erase q id).hooks q).isEmpty = true := List.isEmpty_iff.mpr none_left
    simp [SlotTable.closeIfEmpty, empty] at opened
  · have unchanged : ((t.erase p id).closeIfEmpty p).gate q = t.gate q := by
      simp only [SlotTable.closeIfEmpty]
      split
      · exact update_of_ne other _ _
      · rfl
    rw [unchanged] at opened
    simp only [SlotTable.closeIfEmpty, SlotTable.erase, update_of_ne other]
    exact shut q opened

end Shut

namespace Leads
variable {t : SlotTable φ κ} {p : φ} {e : Slot κ}

theorem push (leads : t.Leads p e) (q : φ) (fn : κ) : (t.push q fn).Leads p e := by
  obtain ⟨rest, first⟩ := leads
  rcases eq_or_ne p q with rfl | other
  · refine ⟨rest ++ [⟨t.nextSlotId, fn⟩], ?_⟩
    simp [SlotTable.push, first]
  · refine ⟨rest, ?_⟩
    simpa [SlotTable.push, update_of_ne other] using first

theorem erase (leads : t.Leads p e) {q : φ} {id : Nat} (other : q = p → id ≠ e.slotId) :
    (t.erase q id).Leads p e := by
  obtain ⟨rest, first⟩ := leads
  rcases eq_or_ne p q with rfl | apart
  · refine ⟨rest.eraseP (·.slotId = id), ?_⟩
    have kept : e.slotId ≠ id := fun same => other rfl same.symm
    simp [SlotTable.erase, first, kept]
  · refine ⟨rest, ?_⟩
    simpa [SlotTable.erase, update_of_ne apart] using first

theorem closeIfEmpty (leads : t.Leads p e) (q : φ) : (t.closeIfEmpty q).Leads p e := leads

end Leads
end SlotTable
end Slots
