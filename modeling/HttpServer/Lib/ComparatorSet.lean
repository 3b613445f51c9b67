import Mathlib.Data.List.Basic

/-!
Containers that know their elements only through a comparison. Two elements are
equivalent when neither is less; nothing is assumed about the comparison.
-/
namespace ComparatorSet
variable {α : Type} (less : α → α → Bool)

def equivalent (a b : α) : Bool := !less a b && !less b a

theorem equivalent_comm (a b : α) : equivalent less a b = equivalent less b a := Bool.and_comm _ _

end ComparatorSet
