import Mathlib.Order.Basic

/-!
The longest run of positions with a property, found in one pass. The pass keeps
the run that ends at the current position and the best one so far; since only a
longer run replaces the best, the first of several longest runs is kept. Before
there is a run at all the best one has length zero and starts at `-1`.
-/
namespace LongestRun
variable {p : Nat → Prop} {n start len : Nat}

structure IsRun (p : Nat → Prop) (n start len : Nat) : Prop where
  inside : start + len ≤ n
  all : ∀ i, start ≤ i → i < start + len → p i

structure Longest (p : Nat → Prop) (n start len : Nat) : Prop where
  run : IsRun p n start len
  most : ∀ s l, IsRun p n s l → l ≤ len
  first : ∀ s, IsRun p n s len → start ≤ s

structure Scan where
  bestStart : Int := -1
  bestLen : Nat := 0
  runStart : Nat := 0
  runLen : Nat := 0

def step (p : Nat → Prop) [DecidablePred p] (s : Scan) (i : Nat) : Scan :=
  if p i then
    let runStart := if s.runLen = 0 then i else s.runStart
    let runLen := s.runLen + 1
    if runLen > s.bestLen then ⟨runStart, runLen, runStart, runLen⟩
    else ⟨s.bestStart, s.bestLen, runStart, runLen⟩
  else { s with runLen := 0 }

def scan (p : Nat → Prop) [DecidablePred p] : Nat → Scan
  | 0 => {}
  | n + 1 => step p (scan p n) n

theorem IsRun.empty (n : Nat) : IsRun p n n 0 := ⟨Nat.le_refl n, fun i after before => by omega⟩

theorem IsRun.wider (run : IsRun p n start len) : IsRun p (n + 1) start len :=
  ⟨Nat.le_succ_of_le run.inside, run.all⟩

theorem IsRun.snoc (run : IsRun p n start len) (ends : start + len = n) (next : p n) :
    IsRun p (n + 1) start (len + 1) := by
  constructor
  · omega
  · intro i after before
    by_cases last : i = n
    · rw [last]
      exact next
    · exact run.all i after (by omega)

theorem IsRun.cases (run : IsRun p (n + 1) start len) (positive : 0 < len) :
    IsRun p n start len ∨ (start + len = n + 1 ∧ p n ∧ IsRun p n start (len - 1)) := by
  by_cases old : start + len ≤ n
  · exact Or.inl ⟨old, run.all⟩
  · have ends : start + len = n + 1 := Nat.le_antisymm run.inside (by omega)
    refine Or.inr ⟨ends, run.all n (by omega) (by omega), by omega, ?_⟩
    intro i after before
    exact run.all i after (by omega)

structure Known (p : Nat → Prop) (n : Nat) (s : Scan) : Prop where
  current : ∃ start, IsRun p n start s.runLen ∧ start + s.runLen = n ∧
    (0 < s.runLen → s.runStart = start)
  ending : ∀ start len, IsRun p n start len → start + len = n → len ≤ s.runLen
  most : ∀ start len, IsRun p n start len → len ≤ s.bestLen
  best : 0 < s.bestLen → ∃ start : Nat, s.bestStart = start ∧ IsRun p n start s.bestLen ∧
    ∀ other, IsRun p n other s.bestLen → start ≤ other

theorem known_zero : Known p 0 {} := by
  refine ⟨⟨0, IsRun.empty 0, rfl, fun positive => absurd positive (Nat.lt_irrefl 0)⟩, ?_, ?_,
    fun positive => absurd positive (Nat.lt_irrefl 0)⟩
  · intro start len run _
    exact Nat.le_trans (Nat.le_add_left len start) run.inside
  · intro start len run
    exact Nat.le_trans (Nat.le_add_left len start) run.inside

theorem known_skip {s : Scan} (known : Known p n s) (fails : ¬p n) :
    Known p (n + 1) { s with runLen := 0 } := by
  have old : ∀ {start len}, IsRun p (n + 1) start len → 0 < len → IsRun p n start len := by
    intro start len run positive
    rcases run.cases positive with old | ⟨-, holds, -⟩
    · exact old
    · exact absurd holds fails
  refine ⟨⟨n + 1, IsRun.empty (n + 1), rfl, fun positive => absurd positive (Nat.lt_irrefl 0)⟩,
    ?_, ?_, ?_⟩
  · intro start len run ends
    by_contra positive
    have inside := (old run (Nat.lt_of_not_le positive)).inside
    omega
  · intro start len run
    by_cases positive : 0 < len
    · exact known.most start len (old run positive)
    · omega
  · intro positive
    obtain ⟨start, same, run, first⟩ := known.best positive
    exact ⟨start, same, run.wider, fun other found => first other (old found positive)⟩

theorem known_extend {s : Scan} (known : Known p n s) (holds : p n) :
    ∃ start, IsRun p (n + 1) start (s.runLen + 1) ∧ start + (s.runLen + 1) = n + 1 ∧
      (if s.runLen = 0 then n else s.runStart) = start ∧
      ∀ other len, IsRun p (n + 1) other len → other + len = n + 1 → len ≤ s.runLen + 1 := by
  obtain ⟨start, run, ends, begun⟩ := known.current
  refine ⟨start, run.snoc ends holds, by omega, ?_, ?_⟩
  · split
    · omega
    · rename_i going
      exact begun (Nat.pos_of_ne_zero going)
  · intro other len found at_end
    by_cases positive : 0 < len
    · rcases found.cases positive with old | ⟨-, -, shorter⟩
      · have inside := old.inside
        omega
      · have bound := known.ending other (len - 1) shorter (by omega)
        omega
    · omega

theorem known_step [DecidablePred p] {s : Scan} (known : Known p n s) :
    Known p (n + 1) (step p s n) := by
  unfold step
  split
  · rename_i holds
    obtain ⟨start, run, ends, begun, ending⟩ := known_extend known holds
    have bound : ∀ other len, IsRun p (n + 1) other len →
        len ≤ s.bestLen ∨ (other + len = n + 1 ∧ len ≤ s.runLen + 1) := by
      intro other len found
      by_cases positive : 0 < len
      · rcases found.cases positive with old | ⟨at_end, -, -⟩
        · exact Or.inl (known.most other len old)
        · exact Or.inr ⟨at_end, ending other len found at_end⟩
      · exact Or.inl (by omega)
    dsimp only
    rw [begun]
    split
    · rename_i longer
      refine ⟨⟨start, run, ends, fun _ => rfl⟩, ending, ?_, fun _ => ⟨start, rfl, run, ?_⟩⟩
      · intro other len found
        rcases bound other len found with small | ⟨-, small⟩
        · dsimp only
          omega
        · exact small
      · intro other found
        rcases bound other _ found with small | ⟨at_end, -⟩
        · dsimp only at small
          omega
        · dsimp only at at_end
          omega
    · rename_i shorter
      refine ⟨⟨start, run, ends, fun _ => rfl⟩, ending, ?_, fun positive => ?_⟩
      · intro other len found
        rcases bound other len found with small | ⟨-, small⟩
        · exact small
        · dsimp only
          omega
      · obtain ⟨earliest, same, found, first⟩ := known.best positive
        refine ⟨earliest, same, found.wider, fun other tied => ?_⟩
        dsimp only at tied
        rcases tied.cases positive with old | ⟨at_end, -, -⟩
        · exact first other old
        · -- a tie at the end starts behind the best run
          have inside := found.inside
          omega
  · rename_i fails
    exact known_skip known fails

theorem known_scan [DecidablePred p] (n : Nat) : Known p n (scan p n) := by
  induction n with
  | zero => exact known_zero
  | succ n ih => exact known_step ih

/-- The pass ends with the first longest run, if there is a run at all. -/
theorem scan_longest [DecidablePred p] (positive : 0 < (scan p n).bestLen) :
    ∃ start : Nat, (scan p n).bestStart = start ∧ Longest p n start (scan p n).bestLen := by
  obtain ⟨start, same, run, first⟩ := (known_scan n).best positive
  exact ⟨start, same, run, (known_scan n).most, first⟩

end LongestRun
