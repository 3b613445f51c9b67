import Mathlib.Data.List.Nodup
import Mathlib.Logic.Function.Basic

/-!
Registrations and the names that own them. A registration ends when the name
that owns it ends it. Ownership can move to another name, and it can be given
up for good, which leaves the registration standing. Registrations are told
apart by a key.
-/
namespace Custody
open Function (update update_self update_of_ne update_eq_self)
variable {ν ρ κ : Type}

structure Ledger (ν ρ : Type) where
  added : List ρ
  live : List ρ
  owned : ν → Option ρ

namespace Ledger

structure Kept (key : ρ → κ) (c : Ledger ν ρ) : Prop where
  distinct : (c.added.map key).Nodup
  listed : c.live.Sublist c.added
  held : ∀ n r, c.owned n = some r → r ∈ c.live
  unique : ∀ n m r, c.owned n = some r → c.owned m = some r → n = m

section
variable [DecidableEq ν]

def add (c : Ledger ν ρ) (n : ν) (r : ρ) : Ledger ν ρ :=
  ⟨c.added ++ [r], c.live ++ [r], update c.owned n (some r)⟩

def finish [DecidableEq ρ] (c : Ledger ν ρ) (n : ν) : Ledger ν ρ :=
  { c with
    live := c.live.filter fun r => c.owned n ≠ some r
    owned := update c.owned n none }

def release (c : Ledger ν ρ) (n : ν) : Ledger ν ρ :=
  { c with owned := update c.owned n none }

def transfer (c : Ledger ν ρ) (dst src : ν) : Ledger ν ρ :=
  { c with owned := update (update c.owned dst (c.owned src)) src none }

end

namespace Kept
variable {key : ρ → κ} {c : Ledger ν ρ} {r : ρ} {owned : ν → Option ρ}

theorem mem_added (kept : c.Kept key) (live : r ∈ c.live) : r ∈ c.added :=
  kept.listed.subset live

theorem same_of_key (kept : c.Kept key) {s : ρ} (left : r ∈ c.live) (right : s ∈ c.live)
    (same : key r = key s) : r = s :=
  List.inj_on_of_nodup_map kept.distinct (kept.mem_added left) (kept.mem_added right) same

theorem start (added : List ρ) (distinct : (added.map key).Nodup) :
    (Ledger.mk added added fun _ : ν => none).Kept key :=
  ⟨distinct, List.Sublist.refl added, fun _ _ owns => (nomatch owns), fun _ _ _ owns => (nomatch owns)⟩

theorem reassign (kept : c.Kept key) (origin : ∀ n r, owned n = some r → ∃ m, c.owned m = some r)
    (unique : ∀ n m r, owned n = some r → owned m = some r → n = m) :
    ({ c with owned := owned } : Ledger ν ρ).Kept key := by
  refine ⟨kept.distinct, kept.listed, fun n r owns => ?_, unique⟩
  obtain ⟨m, before⟩ := origin n r owns
  exact kept.held m r before

variable [DecidableEq ν]

theorem add (kept : c.Kept key) (n : ν) (new : key r ∉ c.added.map key) : (c.add n r).Kept key := by
  have unowned : ∀ m, c.owned m ≠ some r := fun m owns =>
    new (List.mem_map_of_mem (kept.mem_added (kept.held m r owns)))
  refine ⟨?_, kept.listed.append (List.Sublist.refl _), fun m s owns => ?_, fun m l s left right => ?_⟩
  · rw [Ledger.add, List.map_append, List.map_singleton, ← List.concat_eq_append]
    exact kept.distinct.concat new
  · rcases eq_or_ne m n with rfl | other
    · simp only [Ledger.add, update_self, Option.some.injEq] at owns
      exact List.mem_append_right _ (List.mem_singleton.mpr owns.symm)
    · simp only [Ledger.add, update_of_ne other] at owns
      exact List.mem_append_left _ (kept.held m s owns)
  · rcases eq_or_ne m n with rfl | one
    · rcases eq_or_ne l m with rfl | two
      · rfl
      · simp only [Ledger.add, update_self, update_of_ne two] at left right
        exact absurd (right.trans left.symm) (unowned l)
    · rcases eq_or_ne l n with rfl | two
      · simp only [Ledger.add, update_self, update_of_ne one] at left right
        exact absurd (left.trans right.symm) (unowned m)
      · simp only [Ledger.add, update_of_ne one, update_of_ne two] at left right
        exact kept.unique m l s left right

theorem owned_of_update_none {n m : ν} (owns : update owned n none m = some r) :
    m ≠ n ∧ owned m = some r := by
  rcases eq_or_ne m n with rfl | other
  · simp at owns
  · exact ⟨other, by simpa [update_of_ne other] using owns⟩

theorem release (kept : c.Kept key) (n : ν) : (c.release n).Kept key :=
  kept.reassign (fun m _ owns => ⟨m, (owned_of_update_none owns).2⟩)
    fun m l r left right =>
      kept.unique m l r (owned_of_update_none left).2 (owned_of_update_none right).2

theorem transfer (kept : c.Kept key) (dst src : ν) : (c.transfer dst src).Kept key := by
  have origin : ∀ m r, (c.transfer dst src).owned m = some r →
      (m = dst ∧ c.owned src = some r) ∨ (m ≠ dst ∧ m ≠ src ∧ c.owned m = some r) := by
    intro m r owns
    obtain ⟨other, owns⟩ := owned_of_update_none owns
    rcases eq_or_ne m dst with rfl | apart
    · exact Or.inl ⟨rfl, by simpa using owns⟩
    · exact Or.inr ⟨apart, other, by simpa [update_of_ne apart] using owns⟩
  refine kept.reassign (fun m r owns => ?_) fun m l r left right => ?_
  · rcases origin m r owns with ⟨-, before⟩ | ⟨-, -, before⟩
    · exact ⟨src, before⟩
    · exact ⟨m, before⟩
  · rcases origin m r left with ⟨rfl, one⟩ | ⟨_, awayLeft, one⟩
    · rcases origin l r right with ⟨rfl, -⟩ | ⟨-, away, two⟩
      · rfl
      · exact absurd (kept.unique l src r two one) away
    · rcases origin l r right with ⟨-, two⟩ | ⟨-, -, two⟩
      · exact absurd (kept.unique m src r one two) awayLeft
      · exact kept.unique m l r one two

theorem finish [DecidableEq ρ] (kept : c.Kept key) (n : ν) : (c.finish n).Kept key := by
  refine ⟨kept.distinct, List.filter_sublist.trans kept.listed, fun m r owns => ?_,
    (kept.release n).unique⟩
  obtain ⟨other, owns⟩ := owned_of_update_none owns
  refine List.mem_filter.mpr ⟨kept.held m r owns, decide_eq_true fun also => ?_⟩
  exact other (kept.unique m n r owns also)

end Kept

theorem finish_of_none [DecidableEq ν] [DecidableEq ρ] {c : Ledger ν ρ} {n : ν}
    (owns : c.owned n = none) : c.finish n = c := by
  obtain ⟨added, live, owned⟩ := c
  have kept : update owned n none = owned := by
    rw [← owns]
    exact update_eq_self n owned
  have all : live.filter (fun r => owned n ≠ some r) = live :=
    List.filter_eq_self.mpr fun r _ => by simp [show owned n = none from owns]
  simp only [finish, kept, all]

end Ledger

theorem eraseP_eq_filter {p : ρ → Bool} {l : List ρ}
    (one : l.Pairwise fun a b => ¬ (p a = true ∧ p b = true)) :
    l.eraseP p = l.filter fun a => !p a := by
  induction one with
  | nil => rfl
  | @cons a l first rest ih =>
    cases hit : p a with
    | true =>
      rw [List.eraseP_cons_of_pos hit, List.filter_cons_of_neg (by simp [hit])]
      refine (List.filter_eq_self.mpr fun b listed => ?_).symm
      have miss := first b listed
      simpa [hit] using miss
    | false =>
      rw [List.eraseP_cons_of_neg (by simp [hit]), List.filter_cons_of_pos (by simp [hit]), ih]

end Custody
