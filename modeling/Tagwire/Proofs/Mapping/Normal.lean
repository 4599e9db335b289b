import Tagwire.Proofs.Entries
import Tagwire.Proofs.Mapping.Scalar
import Tagwire.Registry

/-!
# Records in normal form

A record is in normal form for a registered type if its members are those of the type, each with a value
in normal form for the kind of its field: a scalar in its one form, a record in normal form, or a list of
either.  Only a record may be absent.  The records within a record count its levels.
-/

set_option autoImplicit false

namespace Tagwire

namespace RegisteredField

/-- The JSON value is in normal form for one value of the field: for the scalar kind if the type name is a
keyword, and for the record type under `nested` otherwise. -/
def IsNormalItem (nested : String → Json → Prop) (field : RegisteredField) (json : Json) : Prop :=
  match Scalar.ofKeyword? field.typeName with
  | some kind => kind.IsNormal json
  | none => nested field.typeName json

/-- The JSON value is in normal form for the field: an array of normal items if it is repeated, and a normal
item otherwise. -/
def IsNormal (nested : String → Json → Prop) (field : RegisteredField) (json : Json) : Prop :=
  if field.repeated then ∃ items, json = .arr items ∧ ∀ item ∈ items, field.IsNormalItem nested item
  else field.IsNormalItem nested json

/-- May the field be absent from a record in normal form?  So it may if it is singular and holds a record. -/
def isOptional (field : RegisteredField) : Bool :=
  !field.repeated && (Scalar.ofKeyword? field.typeName).isNone

end RegisteredField

/-- The members are those of a record in normal form for the type: sorted by key, each under the name of a field
and in normal form for it, and none missing but those of fields that are `isOptional`.  The member `type` is one
of them and may be any text. -/
structure RegisteredType.IsNormal (nested : String → Json → Prop) (type : RegisteredType)
    (members : Entries Json) : Prop where
  sorted : Assoc.IsSorted members
  declared : ∀ key json, Entries.get? members key = some json →
    ∃ f ∈ type.fields, f.name = key ∧ f.IsNormal nested json
  present : ∀ f ∈ type.fields, f.isOptional = false → (Entries.get? members f.name).isSome = true

/-- The JSON value is an object in normal form for the record type `name`, which nests at most the given number
of levels, its own included. -/
def Registry.IsNormal (registry : Registry) : Nat → String → Json → Prop
  | 0, _, _ => False
  | levels + 1, name, json => ∃ type members, registry.get? name = some type ∧ json = .obj members ∧
      type.IsNormal (registry.IsNormal levels) members

end Tagwire
