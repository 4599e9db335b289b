import Tagwire.Mapping.Writer
import Tagwire.Proofs.Entries

/-!
# The members of a message written as JSON

Whichever form a message has, an object that it is written as lists its members in the order of their
keys, so that what a record decodes to is a record in order.
-/

set_option autoImplicit false

namespace Tagwire

/-- The members of an object that `Json.ofMembers` makes are sorted by key. -/
theorem Json.isSorted_of_ofMembers {more members : List (String × Json)}
    (h : Json.ofMembers more = .obj members) : Assoc.IsSorted members := by
  cases h
  exact Entries.isSorted_ofList more

/-- Members that are sorted by key are those of the object that `Json.ofMembers` makes of them. -/
theorem Json.ofMembers_of_isSorted {members : Entries Json} (h : Assoc.IsSorted members) :
    Json.ofMembers members = .obj members :=
  congrArg Json.obj (Entries.ofList_of_isSorted h)

/-- The form `scalarJson` of a scalar is no object. -/
theorem Value.scalarJson_ne_obj (value : Value) (members : List (String × Json)) :
    value.scalarJson ≠ .obj members := by
  have hfloat : ∀ x, Json.ofFloat x ≠ .obj members := by
    intro x h
    unfold Json.ofFloat at h
    split at h <;> cases h
  cases value with
  | float x => exact hfloat x.widen
  | double x => exact hfloat x
  | _ => exact fun h => (by cases h)

/-- The members of an object that a dynamic value shows are sorted by key. -/
theorem DynamicValue.isSorted_of_toJson? {value : Value} {members : List (String × Json)}
    (h : toJson? value = some (.obj members)) : Assoc.IsSorted members := by
  unfold toJson? at h
  split at h
  · split at h <;> cases h
  · cases h
  · cases h
  · obtain ⟨more, -, hobject⟩ := Option.map_eq_some_iff.mp h
    exact Json.isSorted_of_ofMembers hobject
  · obtain ⟨items, -, hitems⟩ := Option.map_eq_some_iff.mp h
    cases hitems
  · cases h

/-- The members of an object that a special form shows are sorted by key. -/
theorem SpecialForm.isSorted_of_toJson? {form : SpecialForm} {values : FieldValues}
    {members : List (String × Json)} (h : form.toJson? values = some (.obj members)) :
    Assoc.IsSorted members := by
  cases form with
  | any => cases h
  | timestamp =>
    unfold toJson? at h
    dsimp only at h
    split at h <;> cases h
  | duration =>
    unfold toJson? at h
    dsimp only at h
    split at h <;> cases h
  | fieldMask =>
    obtain ⟨text, -, htext⟩ := Option.map_eq_some_iff.mp h
    cases htext
  | struct =>
    obtain ⟨more, -, hobject⟩ := Option.map_eq_some_iff.mp h
    exact Json.isSorted_of_ofMembers hobject
  | listValue =>
    obtain ⟨items, -, hitems⟩ := Option.map_eq_some_iff.mp h
    cases hitems
  | value => exact DynamicValue.isSorted_of_toJson? h
  | empty =>
    cases h
    exact .nil
  | wrapper kind =>
    have hwrapped : wrappedJson ((FieldValues.get? values 1).getD ((ValueType.scalar kind).zero 0)) =
        .obj members := Option.some.inj h
    unfold wrappedJson at hwrapped
    split at hwrapped
    · split at hwrapped <;> cases hwrapped
    · split at hwrapped <;> cases hwrapped
    · exact absurd hwrapped (Value.scalarJson_ne_obj _ members)

namespace Schema

variable {schema : Schema}

/-- The members of an object that `messageToJson?` shows are sorted by key. -/
theorem isSorted_of_messageToJson? {type : MessageType} {values : FieldValues}
    {members : List (String × Json)} (h : schema.messageToJson? type values = some (.obj members)) :
    Assoc.IsSorted members := by
  unfold messageToJson? at h
  rw [valueToJson?] at h
  split at h
  · cases h
  · split at h
    · rename_i form _
      unfold specialToJson? at h
      obtain ⟨stored, -, hform⟩ := Option.bind_eq_some_iff.mp h
      split at hform
      · obtain ⟨more, -, hobject⟩ := Option.bind_eq_some_iff.mp hform
        exact Json.isSorted_of_ofMembers (Option.some.inj hobject)
      · exact SpecialForm.isSorted_of_toJson? hform
    · obtain ⟨shown, -, hobject⟩ := Option.map_eq_some_iff.mp h
      exact Json.isSorted_of_ofMembers hobject

end Schema

end Tagwire
