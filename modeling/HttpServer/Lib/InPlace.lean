import Mathlib.Data.List.Basic
import Mathlib.Logic.Relation

/-!
A buffer rewritten in place. A loop reads at one position and writes at another
one that never passes it, so what it still has to read is what came in, and what
it has written is what a pure reader of the input puts out. A reader looks at
the unread text, puts out one entry and says how many entries that takes.
-/
namespace InPlace
variable {α : Type}

structure Cursor (α : Type) where
  data : List α
  rpos : Nat
  wpos : Nat
  deriving DecidableEq, Repr

namespace Cursor

def start (input : List α) : Cursor α := ⟨input, 0, 0⟩

def put (s : Cursor α) (x : α) (taken : Nat) : Cursor α :=
  ⟨s.data.set s.wpos x, s.rpos + taken, s.wpos + 1⟩

@[simp]
theorem rpos_put (s : Cursor α) (x : α) (taken : Nat) : (s.put x taken).rpos = s.rpos + taken := rfl

def unread (s : Cursor α) : List α := s.data.drop s.rpos

end Cursor

def Takes (next : List α → Option (α × Nat)) : Prop :=
  ∀ text x n, next text = some (x, n) → 0 < n ∧ n ≤ text.length

def Runs (next : List α → Option (α × Nat)) (size : Nat) (turn : Cursor α → Option (Cursor α)) :
    Prop :=
  ∀ s, s.data.length = size → turn s = (next s.unread).map fun e => s.put e.1 e.2

/-- The loop has put out `out` so far and has not spoiled what it has to read. -/
structure Follows (input out : List α) (s : Cursor α) : Prop where
  behind : s.wpos ≤ s.rpos
  inside : s.rpos ≤ input.length
  size : s.data.length = input.length
  written : s.data.take s.wpos = out
  unread : s.unread = input.drop s.rpos

variable {input out : List α} {s t : Cursor α} {next : List α → Option (α × Nat)}
  {turn : Cursor α → Option (Cursor α)}

theorem follows_start (input : List α) : Follows input [] (Cursor.start input) where
  behind := Nat.le_refl 0
  inside := Nat.zero_le _
  size := rfl
  written := List.take_zero
  unread := rfl

namespace Follows

theorem put (follows : Follows input out s) {n : Nat} (some_ : 0 < n)
    (left : n ≤ (input.drop s.rpos).length) (x : α) : Follows input (out ++ [x]) (s.put x n) := by
  have behind := follows.behind
  have size := follows.size
  rw [List.length_drop] at left
  refine ⟨?_, ?_, ?_, ?_, ?_⟩
  · change s.wpos + 1 ≤ s.rpos + n
    omega
  · change s.rpos + n ≤ input.length
    omega
  · change (s.data.set s.wpos x).length = input.length
    rw [List.length_set, size]
  · change (s.data.set s.wpos x).take (s.wpos + 1) = out ++ [x]
    have room : s.wpos < s.data.length := by omega
    rw [List.take_add_one, List.take_set_of_le (Nat.le_refl _), follows.written,
      List.getElem?_set_self room, Option.toList_some]
  · change (s.data.set s.wpos x).drop (s.rpos + n) = input.drop (s.rpos + n)
    have passed : s.wpos < s.rpos + n := by omega
    have same : s.data.drop s.rpos = input.drop s.rpos := follows.unread
    rw [List.drop_set_of_lt passed, ← List.drop_drop, same, List.drop_drop]

theorem turn_of_next (follows : Follows input out s) (runs : Runs next input.length turn) :
    turn s = (next (input.drop s.rpos)).map fun e => s.put e.1 e.2 := by
  rw [runs s follows.size, follows.unread]

theorem step (takes : Takes next) (runs : Runs next input.length turn)
    (follows : Follows input out s) (turned : turn s = some t) :
    ∃ x, Follows input (out ++ [x]) t := by
  rw [follows.turn_of_next runs] at turned
  obtain ⟨⟨x, n⟩, read, rfl⟩ := Option.map_eq_some_iff.mp turned
  obtain ⟨some_, left⟩ := takes _ x n read
  exact ⟨x, follows.put some_ left x⟩

theorem reached (takes : Takes next) (runs : Runs next input.length turn)
    (run : Relation.ReflTransGen (fun a b => turn a = some b) (Cursor.start input) t) :
    ∃ out, Follows input out t := by
  induction run with
  | refl => exact ⟨[], follows_start input⟩
  | tail _ turned ih =>
    obtain ⟨out, follows⟩ := ih
    obtain ⟨x, longer⟩ := follows.step takes runs turned
    exact ⟨out ++ [x], longer⟩

/-- The loop as a whole puts out what the reader does on the input. -/
theorem finish {output : List α → List α} {loop : Cursor α → Cursor α} (takes : Takes next)
    (runs : Runs next input.length turn) (unrolls : ∀ s, loop s = (turn s).elim s loop)
    (reads : ∀ text, output text = (next text).elim [] fun e => e.1 :: output (text.drop e.2))
    (follows : Follows input out s) :
    Follows input (out ++ output (input.drop s.rpos)) (loop s) := by
  induction left : input.length - s.rpos using Nat.strongRecOn generalizing s out with
  | ind k ih =>
    rw [unrolls, follows.turn_of_next runs, reads]
    cases read : next (input.drop s.rpos) with
    | none => simpa using follows
    | some e =>
      obtain ⟨some_, room⟩ := takes _ e.1 e.2 read
      have later := ih (input.length - (s.rpos + e.2))
        (by rw [List.length_drop] at room; omega) (follows.put some_ room e.1) rfl
      rw [List.append_assoc] at later
      simpa [List.drop_drop] using later

end Follows

end InPlace
