import Mathlib.Logic.Function.Basic
import Mathlib.Data.List.Basic

/-!
Resources with one life. A resource is taken by a name, may change hands, and
ends when the name that owns it ends it, in one of several ways. The log holds
every taking and every end, so a resource that is ended twice, or never, shows.
-/
namespace Lifetime
open Function (update update_self update_of_ne update_eq_self)
variable {ν κ ε : Type}

inductive Event (ε : Type) where
  | taken
  | ended (how : ε)
  deriving DecidableEq, Repr

structure Account (ν κ ε : Type) where
  owned : ν → Option κ
  log : List (κ × Event ε)

def history [DecidableEq κ] (log : List (κ × Event ε)) (k : κ) : List (Event ε) :=
  (log.filter fun entry => entry.1 = k).map (·.2)

def ends (owned : Option κ) (how : ε) (log : List (κ × Event ε)) : List (κ × Event ε) :=
  match owned with
  | none => log
  | some k => log ++ [(k, .ended how)]

namespace Account

section
variable [DecidableEq ν]

def take (a : Account ν κ ε) (n : ν) (k : κ) : Account ν κ ε :=
  ⟨update a.owned n (some k), a.log ++ [(k, .taken)]⟩

def finish (a : Account ν κ ε) (n : ν) (how : ε) : Account ν κ ε :=
  ⟨update a.owned n none, ends (a.owned n) how a.log⟩

def transfer (a : Account ν κ ε) (dst src : ν) : Account ν κ ε :=
  { a with owned := update (update a.owned dst (a.owned src)) src none }

end

/-- Every resource has at most one owner; it has one until it has ended. -/
structure Balanced [DecidableEq κ] (a : Account ν κ ε) : Prop where
  unique : ∀ n m k, a.owned n = some k → a.owned m = some k → n = m
  held : ∀ n k, a.owned n = some k → history a.log k = [.taken]
  free : ∀ k, (∀ n, a.owned n ≠ some k) →
    history a.log k = [] ∨ ∃ how, history a.log k = [.taken, .ended how]

end Account

theorem history_append_self [DecidableEq κ] (log : List (κ × Event ε)) (k : κ) (e : Event ε) :
    history (log ++ [(k, e)]) k = history log k ++ [e] := by
  simp [history]

theorem history_append_other [DecidableEq κ] (log : List (κ × Event ε)) {k j : κ} (e : Event ε)
    (other : j ≠ k) : history (log ++ [(k, e)]) j = history log j := by
  simp [history, other.symm]

namespace Account

theorem Balanced.start [DecidableEq κ] :
    (Account.mk (fun _ : ν => none) [] : Account ν κ ε).Balanced where
  unique _ _ _ owns := (Option.some_ne_none _ owns.symm).elim
  held _ _ owns := (Option.some_ne_none _ owns.symm).elim
  free _ _ := Or.inl rfl

variable [DecidableEq ν]

theorem owned_update_none {owned : ν → Option κ} {n m : ν} {k : κ}
    (owns : update owned n none m = some k) : m ≠ n ∧ owned m = some k := by
  rcases eq_or_ne m n with rfl | other
  · rw [update_self] at owns
    cases owns
  · rw [update_of_ne other] at owns
    exact ⟨other, owns⟩

theorem owned_transfer {a : Account ν κ ε} {dst src m : ν} {k : κ}
    (owns : (a.transfer dst src).owned m = some k) :
    (m = dst ∧ a.owned src = some k) ∨ (m ≠ src ∧ a.owned m = some k) := by
  obtain ⟨notSource, owns⟩ := owned_update_none owns
  rcases eq_or_ne m dst with rfl | other
  · rw [update_self] at owns
    exact Or.inl ⟨rfl, owns⟩
  · rw [update_of_ne other] at owns
    exact Or.inr ⟨notSource, owns⟩

namespace Balanced
variable [DecidableEq κ] {a : Account ν κ ε}

theorem take (balanced : a.Balanced) {n : ν} {k : κ} (empty : a.owned n = none)
    (fresh : history a.log k = []) : (a.take n k).Balanced := by
  have unowned (m : ν) : a.owned m ≠ some k := by
    intro owns
    have held := balanced.held m k owns
    rw [fresh] at held
    cases held
  have owner {m : ν} {j : κ} (owns : (a.take n k).owned m = some j) :
      (m = n ∧ j = k) ∨ (j ≠ k ∧ a.owned m = some j) := by
    change update a.owned n (some k) m = some j at owns
    rcases eq_or_ne m n with rfl | other
    · rw [update_self] at owns
      exact Or.inl ⟨rfl, (Option.some.inj owns).symm⟩
    · rw [update_of_ne other] at owns
      refine Or.inr ⟨?_, owns⟩
      rintro rfl
      exact unowned m owns
  refine ⟨?_, ?_, ?_⟩
  · intro m l j left right
    rcases owner left with ⟨rfl, rfl⟩ | ⟨apart, left⟩
    · rcases owner right with ⟨rfl, -⟩ | ⟨apart, -⟩
      · rfl
      · exact absurd rfl apart
    · rcases owner right with ⟨-, same⟩ | ⟨-, right⟩
      · exact absurd same apart
      · exact balanced.unique m l j left right
  · intro m j owns
    rcases owner owns with ⟨-, rfl⟩ | ⟨apart, before⟩
    · rw [Account.take, history_append_self, fresh]
      rfl
    · rw [Account.take, history_append_other a.log .taken apart]
      exact balanced.held m j before
  · intro j nobody
    have apart : j ≠ k := by
      rintro rfl
      exact nobody n (update_self ..)
    rw [Account.take, history_append_other a.log .taken apart]
    apply balanced.free
    intro m owns
    have other : m ≠ n := by
      rintro rfl
      rw [empty] at owns
      cases owns
    exact nobody m ((update_of_ne other ..).trans owns)

theorem finish (balanced : a.Balanced) (n : ν) (how : ε) : (a.finish n how).Balanced := by
  unfold Account.finish
  cases owns : a.owned n with
  | none =>
    have same : update a.owned n none = a.owned := by
      rw [← owns, update_eq_self]
    rw [same]
    exact balanced
  | some k =>
    rw [ends]
    refine ⟨?_, ?_, ?_⟩
    · intro m l j left right
      exact balanced.unique m l j (owned_update_none left).2 (owned_update_none right).2
    · intro m j left
      obtain ⟨other, before⟩ := owned_update_none left
      have apart : j ≠ k := by
        rintro rfl
        exact other (balanced.unique m n j before owns)
      rw [history_append_other a.log _ apart]
      exact balanced.held m j before
    · intro j nobody
      rcases eq_or_ne j k with rfl | apart
      · rw [history_append_self, balanced.held n j owns]
        exact Or.inr ⟨how, rfl⟩
      · rw [history_append_other a.log _ apart]
        apply balanced.free
        intro m left
        rcases eq_or_ne m n with rfl | other
        · exact apart (Option.some.inj (left.symm.trans owns))
        · exact nobody m ((update_of_ne other ..).trans left)

theorem transfer (balanced : a.Balanced) {dst src : ν} (empty : a.owned dst = none)
    (distinct : dst ≠ src) : (a.transfer dst src).Balanced := by
  refine ⟨?_, ?_, ?_⟩
  · intro m l k left right
    rcases owned_transfer left with ⟨rfl, one⟩ | ⟨away, one⟩
    · rcases owned_transfer right with ⟨rfl, -⟩ | ⟨away, two⟩
      · rfl
      · exact absurd (balanced.unique l src k two one) away
    · rcases owned_transfer right with ⟨-, two⟩ | ⟨-, two⟩
      · exact absurd (balanced.unique m src k one two) away
      · exact balanced.unique m l k one two
  · intro m k owns
    rcases owned_transfer owns with ⟨-, before⟩ | ⟨-, before⟩
    · exact balanced.held src k before
    · exact balanced.held m k before
  · intro k nobody
    apply balanced.free k
    intro m owns
    rcases eq_or_ne m src with rfl | other
    · apply nobody dst
      change update (update a.owned dst (a.owned m)) m none dst = some k
      rw [update_of_ne distinct, update_self, owns]
    · have apart : m ≠ dst := by
        rintro rfl
        rw [empty] at owns
        cases owns
      apply nobody m
      change update (update a.owned dst (a.owned src)) src none m = some k
      rw [update_of_ne other, update_of_ne apart, owns]

end Balanced
end Account
end Lifetime
