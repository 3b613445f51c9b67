import Mathlib.Data.List.Basic

/-!
Machines that take their input one symbol at a time and now and then have an
output. `first` is a call that reads a buffer up to the first output and says how
much it has read.
-/
namespace Incremental
variable {σ β ο : Type}

abbrev Machine (σ β ο : Type) := σ → β → σ × Option ο

structure Call (σ ο : Type) where
  state : σ
  step : Nat
  output : Option ο

def first (m : Machine σ β ο) (s : σ) : List β → Call σ ο
  | [] => ⟨s, 0, none⟩
  | b :: bs =>
    match (m s b).2 with
    | some o => ⟨(m s b).1, 1, some o⟩
    | none =>
      let rest := first m (m s b).1 bs
      { rest with step := rest.step + 1 }

def outputs (m : Machine σ β ο) (s : σ) : List β → List ο
  | [] => []
  | b :: bs => (m s b).2.toList ++ outputs m (m s b).1 bs

def final (m : Machine σ β ο) (s : σ) (bs : List β) : σ := bs.foldl (fun s b => (m s b).1) s

variable (m : Machine σ β ο) (s : σ)

theorem outputs_append (front back : List β) :
    outputs m s (front ++ back) = outputs m s front ++ outputs m (final m s front) back := by
  induction front generalizing s with
  | nil => rfl
  | cons b front ih =>
    rw [List.cons_append, outputs, outputs, ih, List.append_assoc]
    rfl

structure Reads (s : σ) (buffer : List β) (call : Call σ ο) : Prop where
  outputs : outputs m s buffer
    = call.output.toList ++ outputs m call.state (buffer.drop call.step)
  final : final m s buffer = final m call.state (buffer.drop call.step)
  positive : buffer ≠ [] → 0 < call.step

theorem reads_first (buffer : List β) : Reads m s buffer (first m s buffer) := by
  induction buffer generalizing s with
  | nil => exact ⟨rfl, rfl, fun nonempty => absurd rfl nonempty⟩
  | cons b buffer ih =>
    unfold first
    split
    · rename_i o output
      refine ⟨?_, rfl, fun _ => Nat.one_pos⟩
      rw [Incremental.outputs, output]
      rfl
    · rename_i silent
      have rest := ih (m s b).1
      refine ⟨?_, rest.final, fun _ => Nat.succ_pos _⟩
      rw [Incremental.outputs, silent]
      exact rest.outputs

end Incremental
