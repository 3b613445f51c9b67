import Mathlib.Logic.Function.Basic

/-!
Files as a map from names to contents. A file that is opened for appending is
there afterwards, and what is written goes to its end; the bytes written to a
name that was taken away in between are lost.
-/
namespace FileStore
open Function (update update_self update_of_ne update_idem update_eq_self)
variable {ν β : Type} [DecidableEq ν]

abbrev Disk (ν β : Type) := ν → Option (List β)

def unlink (disk : Disk ν β) (name : ν) : Disk ν β := update disk name none

def openAppend (disk : Disk ν β) (name : ν) : Disk ν β :=
  update disk name (some ((disk name).getD []))

def write (disk : Disk ν β) (name : ν) (data : List β) : Disk ν β :=
  update disk name ((disk name).map (· ++ data))

theorem openAppend_of_isSome {disk : Disk ν β} {name : ν} (there : (disk name).isSome = true) :
    openAppend disk name = disk := by
  obtain ⟨content, found⟩ := Option.isSome_iff_exists.mp there
  rw [openAppend, found, Option.getD_some, ← found, update_eq_self]

section
variable (disk : Disk ν β) (name : ν)

theorem unlink_cases (path : ν) :
    path = name ∧ unlink disk name path = none ∨
      path ≠ name ∧ unlink disk name path = disk path := by
  by_cases here : path = name
  · exact Or.inl ⟨here, here ▸ update_self ..⟩
  · exact Or.inr ⟨here, update_of_ne here ..⟩

theorem unlink_openAppend : unlink (openAppend disk name) name = unlink disk name :=
  update_idem ..

def holding (opened : Bool) (content : List β) : Disk ν β :=
  update disk name (if opened then some content else none)

theorem unlink_eq_holding : unlink disk name = holding disk name false [] := rfl

theorem holding_self (opened : Bool) (content : List β) :
    holding disk name opened content name = if opened then some content else none :=
  update_self ..

theorem holding_other {other : ν} (apart : other ≠ name) (opened : Bool) (content : List β) :
    holding disk name opened content other = disk other :=
  update_of_ne apart ..

theorem openAppend_holding (opened : Bool) {content : List β} (lost : opened = false → content = []) :
    openAppend (holding disk name opened content) name = holding disk name true content := by
  cases opened with
  | true => exact openAppend_of_isSome (by simp [holding_self])
  | false =>
    rw [openAppend, holding_self, holding, update_idem, lost rfl]
    rfl

theorem write_holding (content data : List β) :
    write (holding disk name true content) name data = holding disk name true (content ++ data) := by
  rw [write, holding_self, holding, update_idem]
  rfl

end
end FileStore
