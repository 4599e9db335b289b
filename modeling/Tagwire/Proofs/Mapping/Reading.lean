import Tagwire.Mapping.Reader
import Tagwire.Proofs.Except

/-!
# How JSON is read

The fields of a message are set from the members of an object in turn: what one member does, and how the next
goes on from it, is all that there is to reading them.  A message with a form of its own is brought into the
layout of the form and from there into its fields; an `Any` is read as the message in it first.
-/

set_option autoImplicit false

namespace Tagwire

namespace Schema

variable {schema : Schema} {strict : Bool} {type : MessageType}

/-! ## Members -/

/-- A member that is not null sets its field to the value that has been read of it. -/
theorem ofMember_of_ne_null {f : MessageField} {json : Json} (hne : json ≠ .null) (read : Option Value) :
    schema.ofMember f json read = read.map some := by
  cases json with
  | null => exact absurd rfl hne
  | _ => rfl

/-- Reads one member and sets the field that it addresses.  It fails if the member addresses no field and the
reader is strict, if its value cannot be read, or if another field of its oneof is set. -/
def setMember? (schema : Schema) (strict : Bool) (type : MessageType) (values : FieldValues)
    (m : String × Json) : Option FieldValues :=
  match type.member? m.1 with
  | none => if strict then none else some values
  | some field =>
    match schema.ofMember field m.2 (schema.valueOfJson? strict field.shape field.type m.2) with
    | none => none
    | some none => some values
    | some (some value) =>
      if (type.rivals field).any (FieldValues.contains values) then none
      else some (FieldValues.set values field.number value)

/-- Of members `fieldsOfJson?` reads the first with `setMember?` and then the others; inside an `Any` it passes
over the one under `@type`. -/
theorem fieldsOfJson?_cons (inAny : Bool) (values : FieldValues) (m : String × Json)
    (rest : List (String × Json)) : schema.fieldsOfJson? strict type inAny values (m :: rest) =
      if inAny && m.1 == anyTypeKey then schema.fieldsOfJson? strict type inAny values rest
      else (schema.setMember? strict type values m).bind fun next =>
        schema.fieldsOfJson? strict type inAny next rest := by
  obtain ⟨key, json⟩ := m
  rw [fieldsOfJson?, setMember?]
  cases type.member? key with
  | none => cases strict <;> rfl
  | some field =>
    dsimp only
    cases schema.ofMember field json (schema.valueOfJson? strict field.shape field.type json) with
    | none => rfl
    | some set =>
      cases set with
      | none => rfl
      | some value =>
        dsimp only
        cases (type.rivals field).any (FieldValues.contains values) <;> rfl

/-- Outside an `Any`, `fieldsOfJson?` folds `setMember?` over the members. -/
theorem fieldsOfJson?_eq_foldlM (values : FieldValues) (members : List (String × Json)) :
    schema.fieldsOfJson? strict type false values members =
      members.foldlM (schema.setMember? strict type) values := by
  induction members generalizing values with
  | nil => rfl
  | cons m rest ih =>
    rw [fieldsOfJson?_cons, Bool.false_and, if_neg Bool.false_ne_true, List.foldlM_cons]
    exact congrArg (schema.setMember? strict type values m).bind (funext ih)

/-- Outside an `Any`, the members behind the first one are read from the fields that it leaves. -/
theorem fieldsOfJson?_cons_eq_bind (values : FieldValues) (m : String × Json) (rest : List (String × Json)) :
    schema.fieldsOfJson? strict type false values (m :: rest) =
      (schema.setMember? strict type values m).bind fun next =>
        schema.fieldsOfJson? strict type false next rest := by
  rw [fieldsOfJson?_cons, Bool.false_and, if_neg Bool.false_ne_true]

/-- Members behind others are read from the fields that these leave. -/
theorem fieldsOfJson?_append (before after : List (String × Json)) (values : FieldValues) :
    schema.fieldsOfJson? strict type false values (before ++ after) =
      (schema.fieldsOfJson? strict type false values before).bind fun values =>
        schema.fieldsOfJson? strict type false values after := by
  simp only [fieldsOfJson?_eq_foldlM, List.foldlM_append, Option.bind_eq_bind]

/-- Inside an `Any`, `fieldsOfJson?` reads the members other than the one under `@type`. -/
theorem fieldsOfJson?_inAny (values : FieldValues) (members : List (String × Json)) :
    schema.fieldsOfJson? strict type true values members =
      schema.fieldsOfJson? strict type false values (members.filter fun m => m.1 != anyTypeKey) := by
  induction members generalizing values with
  | nil => rw [fieldsOfJson?, List.filter_nil, fieldsOfJson?]
  | cons m rest ih =>
    rw [fieldsOfJson?_cons, Bool.true_and]
    by_cases hkey : m.1 = anyTypeKey
    · rw [if_pos (beq_iff_eq.mpr hkey), List.filter_cons_of_neg (by simp [hkey]), ih]
    · rw [if_neg (by simp [hkey]), List.filter_cons_of_pos (by simp [hkey]), fieldsOfJson?_cons_eq_bind]
      exact congrArg (schema.setMember? strict type values m).bind (funext ih)

/-- A member that addresses no field is passed over without strictness and fails with it. -/
theorem setMember?_of_member?_eq_none {m : String × Json} (h : type.member? m.1 = none) (values : FieldValues) :
    schema.setMember? strict type values m = if strict then none else some values := by
  rw [setMember?, h]

/-- A member whose field is in no oneof sets it to what `ofMember` gives, and fails if that does. -/
theorem setMember?_of_oneof {m : String × Json} {f : MessageField} (h : type.member? m.1 = some f)
    (hone : f.oneof = none) (values : FieldValues) : schema.setMember? strict type values m =
      (schema.ofMember f m.2 (schema.valueOfJson? strict f.shape f.type m.2)).map fun set =>
        (set.map (FieldValues.set values f.number)).getD values := by
  have hrivals : type.rivals f = [] := by rw [MessageType.rivals, hone]
  rw [setMember?, h]
  dsimp only
  rw [hrivals]
  cases schema.ofMember f m.2 (schema.valueOfJson? strict f.shape f.type m.2) with
  | none => rfl
  | some set => cases set <;> rfl

/-- A member that `setMember?` reads either addresses no field and changes nothing, or it sets the field that it
addresses, or leaves it unset for null. -/
theorem cases_of_setMember? {m : String × Json} {values next : FieldValues}
    (h : schema.setMember? strict type values m = some next) :
    type.member? m.1 = none ∧ next = values ∨
      ∃ f set, type.member? m.1 = some f ∧
        schema.ofMember f m.2 (schema.valueOfJson? strict f.shape f.type m.2) = some set ∧
        next = (set.map (FieldValues.set values f.number)).getD values ∧
        (set ≠ none → ∀ number ∈ type.rivals f, FieldValues.get? values number = none) := by
  unfold setMember? at h
  split at h
  · rename_i hmember
    split at h
    · cases h
    · exact .inl ⟨hmember, (Option.some.inj h).symm⟩
  · rename_i f hmember
    split at h
    · cases h
    · rename_i hset
      exact .inr ⟨f, none, hmember, hset, (Option.some.inj h).symm, fun hne => absurd rfl hne⟩
    · rename_i value hset
      obtain ⟨hrivals, h⟩ := Option.ite_none_left_eq_some.mp h
      refine .inr ⟨f, some value, hmember, hset, (Option.some.inj h).symm, fun _ number hnumber => ?_⟩
      by_contra hsome
      exact hrivals (List.any_eq_true.mpr ⟨number, hnumber, Option.isSome_iff_ne_none.mpr hsome⟩)

/-! ## Maps and messages -/

/-- An object is read as a map with `entriesOfJson?` for the `entryTypes?` of the map. -/
theorem valueOfJson?_map (type : ValueType) (members : List (String × Json)) :
    schema.valueOfJson? strict .map type (.obj members) =
      (schema.entryTypes? type.name).bind fun types =>
        (schema.entriesOfJson? strict types.1 types.2 [] members).map .map := by
  rw [valueOfJson?.eq_def]
  dsimp only
  cases schema.entryTypes? type.name <;> rfl

/-- An object is read as a message without a special form with `fieldsOfJson?`. -/
theorem valueOfJson?_ordinary {name : String} (hm : schema.message? name = some type)
    (hform : SpecialForm.ofTypeName? type.name = none) (members : List (String × Json)) :
    schema.valueOfJson? strict .single (.message name) (.obj members) =
      (schema.fieldsOfJson? strict type false [] members).map .message := by
  rw [valueOfJson?, hm]
  dsimp only
  rw [hform]

/-- A JSON value that is no object is read as no message without a special form. -/
theorem valueOfJson?_ordinary_of_ne_obj {name : String} (hm : schema.message? name = some type)
    (hform : SpecialForm.ofTypeName? type.name = none) {json : Json} (h : ∀ members, json ≠ .obj members) :
    schema.valueOfJson? strict .single (.message name) json = none := by
  cases json with
  | obj members => exact absurd rfl (h members)
  | _ =>
    rw [valueOfJson?, hm]
    dsimp only
    rw [hform]

/-- A JSON value is read as a message with a form other than `Any` with `ofJson?`, and stored with `store?`. -/
theorem valueOfJson?_form {name : String} (hm : schema.message? name = some type) {form : SpecialForm}
    (hform : SpecialForm.ofTypeName? type.name = some form) (hany : form ≠ .any) (json : Json) :
    schema.valueOfJson? strict .single (.message name) json =
      ((form.ofJson? json).bind (form.store? schema type)).map .message := by
  cases json <;>
  · rw [valueOfJson?, hm]
    dsimp only
    rw [hform]
    cases form <;> first | rfl | exact absurd rfl hany

/-- The fields that the members of an `Any` set of the message in it: with `payloadOfJson?` if the message has a
special form, and with `fieldsOfJson?` otherwise. -/
def payloadFields? (schema : Schema) (strict : Bool) (payload : MessageType) (members : List (String × Json)) :
    Option FieldValues :=
  if (SpecialForm.ofTypeName? payload.name).isSome then
    if strict && members.any fun m => m.1 != anyTypeKey && m.1 != anyValueKey then none
    else schema.payloadOfJson? strict payload.name members
  else schema.fieldsOfJson? strict payload true [] members

/-- An object is read as an `Any` whose address is the text under `@type` and whose bytes are those of the
`payloadFields?` of the type at this address. -/
theorem valueOfJson?_any {name : String} (hm : schema.message? name = some type)
    (hform : SpecialForm.ofTypeName? type.name = some .any) (members : Entries Json) :
    schema.valueOfJson? strict .single (.message name) (.obj members) =
      ((Entries.get? members anyTypeKey).bind Json.str?).bind fun address =>
        ((nameOfTypeAddress? address).bind schema.lookup?).bind fun payload =>
          (schema.payloadFields? strict payload members).bind fun values =>
            (SpecialForm.any.store? schema type
              [(1, .string address), (2, .bytes (schema.encode payload values))]).map .message := by
  rw [valueOfJson?, hm]
  dsimp only
  rw [hform]
  simp only [Option.bind_eq_bind]
  refine congrArg _ (funext fun address => congrArg _ (funext fun payload => ?_))
  unfold payloadFields?
  split
  · split <;> rfl
  · rfl

/-- A JSON value that is no object is read as no `Any`. -/
theorem valueOfJson?_any_of_ne_obj {name : String} (hm : schema.message? name = some type)
    (hform : SpecialForm.ofTypeName? type.name = some .any) {json : Json} (h : ∀ members, json ≠ .obj members) :
    schema.valueOfJson? strict .single (.message name) json = none := by
  cases json with
  | obj members => exact absurd rfl (h members)
  | _ =>
    rw [valueOfJson?, hm]
    dsimp only
    rw [hform]

end Schema

end Tagwire
