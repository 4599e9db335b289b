import Tagwire.Json.Value
import Tagwire.Proofs.Entries

/-!
# Changing the floats of a JSON value

Two values that differ in some of their floats only, such as in the sign of a zero, are the same once every
float has been changed in a way that does not tell them apart.
-/

set_option autoImplicit false

namespace Tagwire

namespace Json

mutual

/-- A JSON value with each of its floats changed. -/
def mapFloats (g : Binary64 → Binary64) : Json → Json
  | .float x => .float (g x)
  | .arr items => .arr (mapFloatsOfItems g items)
  | .obj members => .obj (mapFloatsOfMembers g members)
  | json => json

/-- The items of an array with each of their floats changed. -/
def mapFloatsOfItems (g : Binary64 → Binary64) : List Json → List Json
  | [] => []
  | json :: rest => json.mapFloats g :: mapFloatsOfItems g rest

/-- The members of an object with each of their floats changed. -/
def mapFloatsOfMembers (g : Binary64 → Binary64) : List (String × Json) → List (String × Json)
  | [] => []
  | (key, json) :: rest => (key, json.mapFloats g) :: mapFloatsOfMembers g rest

end

variable {g : Binary64 → Binary64}

/-- The items of an array are changed one by one. -/
theorem mapFloatsOfItems_eq (items : List Json) : mapFloatsOfItems g items = items.map (mapFloats g) := by
  induction items with
  | nil => rfl
  | cons json rest ih => rw [mapFloatsOfItems, ih, List.map_cons]

/-- The members of an object are changed one by one. -/
theorem mapFloatsOfMembers_eq (members : List (String × Json)) :
    mapFloatsOfMembers g members = members.map (Prod.map id (mapFloats g)) := by
  induction members with
  | nil => rfl
  | cons m rest ih =>
    obtain ⟨key, json⟩ := m
    rw [mapFloatsOfMembers, ih, List.map_cons]
    rfl

/-- An object is changed member by member, in whichever order they are given. -/
theorem mapFloats_ofMembers (members : List (String × Json)) :
    (ofMembers members).mapFloats g = ofMembers (members.map (Prod.map id (mapFloats g))) := by
  rw [ofMembers, mapFloats, mapFloatsOfMembers_eq, ofMembers, Entries.ofList, Entries.ofList,
    Entries.insertAll_eq, Entries.insertAll_eq, Assoc.insertAll_map]
  rfl

mutual

/-- A JSON value none of whose floats changes is the same. -/
theorem mapFloats_id : (json : Json) → json.mapFloats id = json
  | .float x => rfl
  | .arr items => by rw [mapFloats, mapFloatsOfItems_id items]
  | .obj members => by rw [mapFloats, mapFloatsOfMembers_id members]
  | .null | .bool _ | .int _ | .str _ => rfl

/-- Items none of whose floats changes are the same. -/
theorem mapFloatsOfItems_id : (items : List Json) → mapFloatsOfItems id items = items
  | [] => rfl
  | json :: rest => by rw [mapFloatsOfItems, mapFloats_id json, mapFloatsOfItems_id rest]

/-- Members none of whose floats changes are the same. -/
theorem mapFloatsOfMembers_id : (members : List (String × Json)) → mapFloatsOfMembers id members = members
  | [] => rfl
  | (key, json) :: rest => by rw [mapFloatsOfMembers, mapFloats_id json, mapFloatsOfMembers_id rest]

end

end Json

/-- The float as a number, among which there is one zero only. -/
def Binary64.numeric (x : Binary64) : Binary64 := if x = zero.neg then zero else x

/-- The zeros are one number. -/
theorem Binary64.numeric_neg_zero : zero.neg.numeric = zero.numeric := by
  rw [numeric, if_pos rfl, numeric, if_neg (by decide)]

/-- Two JSON values are the same if their floats are compared as numbers. -/
def Json.IsNumericallySame (json other : Json) : Prop :=
  json.mapFloats Binary64.numeric = other.mapFloats Binary64.numeric

end Tagwire
