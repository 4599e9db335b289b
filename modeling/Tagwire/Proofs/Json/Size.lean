import Mathlib.Algebra.Order.BigOperators.Group.List
import Mathlib.Algebra.Order.Ring.Nat
import Tagwire.Json.Value
import Tagwire.Proofs.Entries

/-!
# The size of a JSON value

A JSON value counts one for each value in it, and its texts and record keys by their characters.
-/

set_option autoImplicit false

namespace Tagwire

namespace Json

mutual

/-- The number of values and characters of a JSON value. -/
def size : Json → Nat
  | .str text => text.length + 1
  | .arr items => sizeOfItems items + 1
  | .obj members => sizeOfMembers members + 1
  | _ => 1

/-- The number of values and characters of the items of an array. -/
def sizeOfItems : List Json → Nat
  | [] => 0
  | json :: rest => json.size + sizeOfItems rest

/-- The number of values and characters of the members of an object. -/
def sizeOfMembers : List (String × Json) → Nat
  | [] => 0
  | (key, json) :: rest => key.length + 1 + json.size + sizeOfMembers rest

end

/-- A JSON value counts itself. -/
theorem size_pos (json : Json) : 0 < json.size := by
  cases json <;> simp [size]

/-- The items of an array count one by one. -/
theorem sizeOfItems_eq (items : List Json) : sizeOfItems items = (items.map size).sum := by
  induction items with
  | nil => rfl
  | cons json rest ih => rw [sizeOfItems, ih, List.map_cons, List.sum_cons]

/-- The members of an object count one by one. -/
theorem sizeOfMembers_eq (members : List (String × Json)) :
    sizeOfMembers members = (members.map fun m => m.1.length + 1 + m.2.size).sum := by
  induction members with
  | nil => rfl
  | cons m rest ih =>
    obtain ⟨key, json⟩ := m
    rw [sizeOfMembers, ih, List.map_cons, List.sum_cons]

/-- An item is no larger than the items. -/
theorem size_le_sizeOfItems {items : List Json} {json : Json} (h : json ∈ items) :
    json.size ≤ sizeOfItems items := by
  rw [sizeOfItems_eq]
  exact List.le_sum_of_mem (List.mem_map_of_mem h)

/-- The value of a member is smaller than the members. -/
theorem size_lt_sizeOfMembers {members : List (String × Json)} {m : String × Json} (h : m ∈ members) :
    m.2.size < sizeOfMembers members := by
  rw [sizeOfMembers_eq]
  have hle : m.1.length + 1 + m.2.size ≤ (members.map fun m => m.1.length + 1 + m.2.size).sum :=
    List.le_sum_of_mem (List.mem_map_of_mem h)
  omega

/-- A member of an object is smaller than the object. -/
theorem size_lt_of_get? {members : Entries Json} {key : String} {json : Json}
    (h : Entries.get? members key = some json) : json.size < (obj members).size :=
  (size_lt_sizeOfMembers (Entries.mem_of_get?_eq_some h)).trans (Nat.lt_succ_self _)

end Json

end Tagwire
