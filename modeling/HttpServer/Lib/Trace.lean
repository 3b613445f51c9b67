import Mathlib.Data.List.Basic
import Mathlib.Order.Defs.Unbundled

/-!
Histories of events that programs write. `Grows p` relates two states when the
second history continues the first by events that satisfy `p`.
-/
namespace Trace
variable {σ ω : Type} {hist : σ → List ω} {p q : ω → Prop} {s t u : σ}

def Grows (hist : σ → List ω) (p : ω → Prop) (s t : σ) : Prop :=
  ∃ new, hist t = hist s ++ new ∧ ∀ e ∈ new, p e

instance : Std.Refl (Grows hist p) := ⟨fun s => ⟨[], by simp⟩⟩

instance : IsTrans σ (Grows hist p) := by
  constructor
  rintro s t u ⟨first, middle, early⟩ ⟨second, last, late⟩
  refine ⟨first ++ second, ?_, ?_⟩
  · rw [last, middle, List.append_assoc]
  · intro e member
    rcases List.mem_append.mp member with old | new
    · exact early e old
    · exact late e new

namespace Grows

theorem mono (grows : Grows hist p s t) (weaker : ∀ e, p e → q e) : Grows hist q s t := by
  obtain ⟨new, whole, sound⟩ := grows
  exact ⟨new, whole, fun e member => weaker e (sound e member)⟩

theorem of_eq (same : hist t = hist s) : Grows hist p s t := by
  refine ⟨[], ?_, ?_⟩
  · rw [same, List.append_nil]
  · intro e member
    cases member

end Grows

theorem split_append {h new before later : List ω} {e : ω}
    (whole : h ++ new = before ++ e :: later) :
    (∃ rest, h = before ++ e :: rest ∧ later = rest ++ new) ∨
      ∃ mid, before = h ++ mid ∧ new = mid ++ e :: later := by
  rcases List.append_eq_append_iff.mp whole with ⟨mid, front, back⟩ | ⟨rest, front, back⟩
  · exact Or.inr ⟨mid, front, back⟩
  · cases rest with
    | nil =>
      rw [List.nil_append] at back
      rw [List.append_nil] at front
      exact Or.inr ⟨[], by rw [front, List.append_nil], back.symm⟩
    | cons e' rest =>
      injection back with head tail
      rw [← head] at front
      exact Or.inl ⟨rest, front, tail⟩

end Trace
