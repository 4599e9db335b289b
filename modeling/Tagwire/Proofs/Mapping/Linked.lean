import Tagwire.Proofs.Schema.Compiled
import Tagwire.Proofs.Wire.Writing

/-!
# The fields of a loaded type

The message type of a registered type has one field for each registered one.  It is found by its number and
by its record key, no two of them share a oneof, and none is a map or a group.  A field with a message in it
is the only one that may be absent.
-/

set_option autoImplicit false

namespace Tagwire

namespace RegisteredField

/-- Does the field hold a record or a bundled message, rather than a scalar? -/
def isMessage (field : RegisteredField) : Bool := (linkedType field.typeName).isMessage

variable (field : RegisteredField)

/-- A linked field has the number of the registered one. -/
@[simp] theorem number_linked : field.linked.number = field.number := rfl

/-- The type of a linked field is the `linkedType` of its type name. -/
@[simp] theorem type_linked : field.linked.type = linkedType field.typeName := rfl

/-- A linked field is a list if it is repeated and single otherwise. -/
@[simp] theorem shape_linked : field.linked.shape = if field.repeated then .list else .single := rfl

/-- No linked field is in a oneof. -/
@[simp] theorem oneof_linked : field.linked.oneof = none := rfl

/-- No linked field is a group. -/
@[simp] theorem grouped_linked : field.linked.grouped = false := rfl

/-- A linked field has presence exactly if it is singular and holds a message. -/
@[simp] theorem presence_linked : field.linked.presence = (!field.repeated && field.isMessage) := rfl

/-- A linked field is packed if it is repeated and its items can be. -/
@[simp] theorem packed_linked :
    field.linked.packed = (field.repeated && (linkedType field.typeName).isPackable) := rfl

/-- The default of a linked field is the empty list if it is repeated and the zero of its type otherwise. -/
@[simp] theorem default_linked : field.linked.default =
    if field.repeated then .list [] else (linkedType field.typeName).zero 0 := rfl

/-- A field for which `defaultValue?` has a value has no presence. -/
theorem presence_linked_eq_false {field : RegisteredField} (h : field.defaultValue? ≠ none) :
    field.linked.presence = false := by
  rw [presence_linked]
  cases hr : field.repeated with
  | true => rfl
  | false =>
    unfold defaultValue? at h
    rw [hr, if_neg Bool.false_ne_true] at h
    cases hk : Scalar.ofKeyword? field.typeName with
    | none =>
      rw [hk] at h
      exact absurd rfl h
    | some kind =>
      rw [isMessage, linkedType, hk]
      rfl

end RegisteredField

namespace MessageType

/-- The type is one of the schema and has no special form, so its messages show as objects of their fields. -/
structure IsOrdinary (type : MessageType) (schema : Schema) : Prop extends type.IsLinked where
  message : schema.message? type.name = some type
  form : SpecialForm.ofTypeName? type.name = none

/-- In a linked type `field?` finds each field by its number. -/
theorem IsLinked.field?_number {type : MessageType} (h : type.IsLinked) {f : MessageField}
    (hf : f ∈ type.fields) : type.field? f.number = some f :=
  find?_eq_some_of_nodup (g := MessageField.number) h.numbers hf

/-- In a linked type `member?` finds each field by its record key. -/
theorem IsLinked.member?_jsonName {type : MessageType} (h : type.IsLinked) {f : MessageField}
    (hf : f ∈ type.fields) : type.member? f.jsonName = some f := by
  unfold member?
  rw [find?_eq_some_of_nodup (g := MessageField.jsonName) h.keys hf]

/-- A field that `member?` finds is one of the type, whose record key or name is the key. -/
theorem of_member? {type : MessageType} {key : String} {f : MessageField}
    (h : type.member? key = some f) : f ∈ type.fields ∧ (f.jsonName = key ∨ f.name = key) := by
  unfold member? at h
  split at h
  · rename_i found hfound
    cases h
    exact ⟨List.mem_of_find?_eq_some hfound, .inl (by simpa using List.find?_some hfound)⟩
  · exact ⟨List.mem_of_find?_eq_some h, .inr (by simpa using List.find?_some h)⟩

end MessageType

namespace RegisteredType

variable {type : RegisteredType} {f : RegisteredField}

namespace IsLaidOut

/-- In a type that is laid out the record key of a linked field is the name of the registered one. -/
theorem jsonName_linked (h : type.IsLaidOut) (hf : f ∈ type.fields) : f.linked.jsonName = f.name := by
  show lowerCamel f.protoName = f.name
  rw [h.protoNames f hf, lowerCamel_snakeCase (h.keys f hf)]

/-- In a type that is laid out two fields with one number are the same. -/
theorem eq_of_number_eq (h : type.IsLaidOut) {g : RegisteredField} (hf : f ∈ type.fields)
    (hg : g ∈ type.fields) (heq : f.number = g.number) : f = g := by
  have hn : (type.fields.map RegisteredField.number).Nodup := by
    rw [h.numbers]
    exact List.nodup_range'
  exact List.inj_on_of_nodup_map hn hf hg heq

/-- In a type that is laid out two fields with one name are the same. -/
theorem eq_of_name_eq (h : type.IsLaidOut) {g : RegisteredField} (hf : f ∈ type.fields)
    (hg : g ∈ type.fields) (heq : f.name = g.name) : f = g :=
  List.inj_on_of_nodup_map h.names_nodup hf hg heq

/-- The fields of the message type that `linked` makes have distinct numbers and distinct record keys. -/
theorem isLinked_linked (h : type.IsLaidOut) : type.linked.IsLinked := by
  have hkeys : type.linked.fields.map MessageField.jsonName = type.fields.map RegisteredField.name := by
    rw [linked, List.map_map]
    exact List.map_congr_left fun g hg => h.jsonName_linked hg
  refine ⟨?_, hkeys ▸ h.names_nodup⟩
  rw [linked, List.map_map]
  show (type.fields.map RegisteredField.number).Nodup
  rw [h.numbers]
  exact List.nodup_range'

/-- In the linked type `field?` finds each field by its number. -/
theorem field?_linked (h : type.IsLaidOut) (hf : f ∈ type.fields) :
    type.linked.field? f.number = some f.linked :=
  h.isLinked_linked.field?_number (List.mem_map_of_mem hf)

/-- In the linked type `member?` finds each field by its record key. -/
theorem member?_linked (h : type.IsLaidOut) (hf : f ∈ type.fields) :
    type.linked.member? f.name = some f.linked := by
  rw [← h.jsonName_linked hf]
  exact h.isLinked_linked.member?_jsonName (List.mem_map_of_mem hf)

/-- `typeTag` is one of the fields of a type that is laid out. -/
theorem typeTag_mem (h : type.IsLaidOut) : .typeTag ∈ type.fields :=
  List.mem_of_head? h.tag

end IsLaidOut

/-- A field that `field?` finds in the linked type is one of the registered fields, linked, with this number. -/
theorem exists_of_field? {number : Nat} {g : MessageField} (hg : type.linked.field? number = some g) :
    ∃ f ∈ type.fields, g = f.linked ∧ number = f.number := by
  obtain ⟨f, hf, rfl⟩ := List.mem_map.mp (List.mem_of_find?_eq_some hg)
  exact ⟨f, hf, rfl, (MessageType.number_of_field? hg).symm⟩

/-- The linked type of a loaded type declares its linked fields. -/
theorem IsLoaded.declares {schema : Schema} (h : type.IsLoaded schema) (hf : f ∈ type.fields) :
    type.linked.Declares f.linked :=
  ⟨⟨h.field?_linked hf, h.number_pos hf, h.numbers_lt f hf⟩, rfl⟩

/-- The name of a loaded type links to its message type. -/
theorem IsLoaded.linkedType_name {schema : Schema} (h : type.IsLoaded schema) :
    linkedType type.name = .message type.name :=
  linkedType_message h.isIdentifier_name h.suffix

/-- A loaded type has no special form. -/
theorem IsLoaded.ofTypeName?_eq_none {schema : Schema} (h : type.IsLoaded schema) :
    SpecialForm.ofTypeName? type.name = none := by
  rw [SpecialForm.ofTypeName?, ofTypeName?_identifier h.isIdentifier_name, Option.bind_none]

/-- The linked type of a loaded type is an ordinary one of its schema. -/
theorem IsLoaded.isOrdinary {schema : Schema} (h : type.IsLoaded schema) :
    type.linked.IsOrdinary schema :=
  ⟨h.isLinked_linked, h.linked, h.ofTypeName?_eq_none⟩

end RegisteredType

end Tagwire
