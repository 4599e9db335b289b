import Mathlib.Data.List.Find
import Tagwire.Proofs.Mapping.Fields

/-!
# Records without unknown members

Pruning a record takes away the members that address no field of its type, in the record itself and in all
records within it, and leaves everything else as it is, whatever it may be.  A lenient reader does the same
as it reads: it reads of a record what a strict reader reads of the pruned one, and refuses what the strict
one refuses there.
-/

set_option autoImplicit false

namespace Tagwire

namespace RegisteredType

/-- The field that a member under `key` addresses: the one whose record key it is, or else the one whose
`protoName` it is. -/
def member? (type : RegisteredType) (key : String) : Option RegisteredField :=
  match type.fields.find? fun f => f.name == key with
  | some field => some field
  | none => type.fields.find? fun f => f.protoName == key

/-- A key addresses no field exactly if it is neither the record key nor the `protoName` of one. -/
theorem member?_eq_none_iff {type : RegisteredType} {key : String} :
    type.member? key = none ↔ ∀ f ∈ type.fields, f.name ≠ key ∧ f.protoName ≠ key := by
  unfold member?
  split
  · rename_i field hfield
    have hname : field.name = key := by simpa using List.find?_some hfield
    refine ⟨fun h => (by cases h), fun h => ?_⟩
    exact absurd hname (h field (List.mem_of_find?_eq_some hfield)).1
  · rename_i hnone
    simp only [List.find?_eq_none, beq_iff_eq] at hnone ⊢
    exact ⟨fun h f hf => ⟨hnone f hf, h f hf⟩, fun h f hf => (h f hf).2⟩

/-- The field that a key addresses is one of the type. -/
theorem mem_of_member? {type : RegisteredType} {key : String} {f : RegisteredField}
    (h : type.member? key = some f) : f ∈ type.fields := by
  unfold member? at h
  split at h
  · rename_i field hfield
    exact Option.some.inj h ▸ List.mem_of_find?_eq_some hfield
  · exact List.mem_of_find?_eq_some h

/-- A key addresses in the linked type the field that it addresses in the registered one. -/
theorem IsLaidOut.member?_linked_eq {type : RegisteredType} (h : type.IsLaidOut) (key : String) :
    type.linked.member? key = (type.member? key).map RegisteredField.linked := by
  have hkeys : (type.fields.find? fun f => f.linked.jsonName == key) =
      type.fields.find? fun f => f.name == key :=
    List.find?_congr fun f hf => by rw [h.jsonName_linked hf]
  unfold MessageType.member? member?
  rw [linked, List.find?_map, List.find?_map]
  simp only [Function.comp_def, hkeys]
  cases type.fields.find? fun f => f.name == key <;> rfl

end RegisteredType

namespace Registry

mutual

/-- A value of a field, or an item of one, without the unknown members of the records in it. -/
def pruneValue (registry : Registry) (repeated : Bool) (typeName : String) : Json → Json
  | .arr items => if repeated then .arr (registry.pruneItems typeName items) else .arr items
  | .obj members =>
    if repeated then .obj members
    else
      match registry.get? typeName with
      | some type => .obj (registry.pruneMembers type members)
      | none => .obj members
  | json => json

/-- The items of a list, each without the unknown members of the records in it. -/
def pruneItems (registry : Registry) (typeName : String) : List Json → List Json
  | [] => []
  | json :: rest => registry.pruneValue false typeName json :: registry.pruneItems typeName rest

/-- The members that address a field of the type, each without the unknown members of the records in its
value. -/
def pruneMembers (registry : Registry) (type : RegisteredType) :
    List (String × Json) → List (String × Json)
  | [] => []
  | (key, json) :: rest =>
    match type.member? key with
    | some f => (key, registry.pruneValue f.repeated f.typeName json) :: registry.pruneMembers type rest
    | none => registry.pruneMembers type rest

end

/-- The function `pruneValue` gives null for null only. -/
theorem pruneValue_eq_null_iff {registry : Registry} {repeated : Bool} {typeName : String} {json : Json} :
    registry.pruneValue repeated typeName json = .null ↔ json = .null := by
  cases json with
  | arr items => cases repeated <;> simp [pruneValue]
  | obj members =>
    rw [pruneValue]
    split
    · simp
    · split <;> simp
  | _ => rfl

/-- Under each key that addresses a field, `pruneMembers` leaves the pruned value of the member, and nothing
under any other. -/
theorem get?_pruneMembers (registry : Registry) (type : RegisteredType) (members : List (String × Json))
    (key : String) : Entries.get? (registry.pruneMembers type members) key =
      (type.member? key).bind fun f =>
        (Entries.get? members key).map (registry.pruneValue f.repeated f.typeName) := by
  simp only [Entries.get?_eq]
  induction members with
  | nil => cases type.member? key <;> rfl
  | cons m rest ih =>
    obtain ⟨own, json⟩ := m
    rw [pruneMembers, Assoc.get?_cons]
    cases hown : type.member? own with
    | none =>
      dsimp only
      rw [ih]
      split
      · rename_i heq
        subst heq
        rw [hown]
        rfl
      · rfl
    | some f =>
      dsimp only
      rw [Assoc.get?_cons, ih]
      split
      · rename_i heq
        subst heq
        rw [hown]
        rfl
      · rfl

/-- The keys that `pruneMembers` leaves are among those before, in their order. -/
theorem keys_pruneMembers_sublist (registry : Registry) (type : RegisteredType) (members : Entries Json) :
    (Entries.keys (registry.pruneMembers type members)).Sublist (Entries.keys members) := by
  induction members with
  | nil => exact .slnil
  | cons m rest ih =>
    obtain ⟨key, json⟩ := m
    rw [pruneMembers]
    split
    · exact ih.cons_cons key
    · exact ih.cons key

/-- A record without the members that address no field, at top level and in all records within; one of an
unknown type is left as it is. -/
def prune (registry : Registry) (record : Record) : Record :=
  match record.typeName?.bind registry.get? with
  | some type => ⟨registry.pruneMembers type record.members,
      record.contents.sorted.sublist (keys_pruneMembers_sublist registry type record.members)⟩
  | none => record

/-- The members of a pruned record of a registered type are those that `pruneMembers` leaves. -/
theorem members_prune {registry : Registry} {record : Record} {name : String} {type : RegisteredType}
    (hname : record.typeName? = some name) (htype : registry.get? name = some type) :
    (registry.prune record).members = registry.pruneMembers type record.members := by
  rw [prune, hname, Option.bind_some, htype]
  rfl

/-- The type name is the keyword of a scalar or the name of a registered type. -/
def Holds (registry : Registry) (typeName : String) : Prop :=
  (∃ kind, Scalar.ofKeyword? typeName = some kind) ∨ typeName ∈ registry.names

/-- The type name of each field of a registered type is that of a scalar or of a registered type. -/
def IsClosed (registry : Registry) : Prop :=
  ∀ name type, registry.get? name = some type → ∀ f ∈ type.fields, registry.Holds f.typeName

end Registry

/-- No scalar kind reads an object. -/
theorem Scalar.ofJson?_obj (kind : Scalar) (members : List (String × Json)) :
    kind.ofJson? (.obj members) = none := by
  cases kind <;> rfl

/-- A single value that is no object is read the same strictly and without strictness. -/
theorem Schema.valueOfJson?_single_of_ne_obj (schema : Schema) (strict : Bool) (type : ValueType) {json : Json}
    (h : ∀ members, json ≠ .obj members) :
    schema.valueOfJson? strict .single type json = schema.valueOfJson? false .single type json := by
  match type, json with
  | .scalar kind, json => rw [valueOfJson?, valueOfJson?]
  | .enum name, json => rw [valueOfJson?, valueOfJson?]
  | .message name, .obj members => exact absurd rfl (h members)
  | .message name, .null | .message name, .bool _ | .message name, .int _ | .message name, .float _
  | .message name, .str _ | .message name, .arr _ => rw [valueOfJson?, valueOfJson?]

namespace CompiledSchema.IsLoaded

open Schema

variable {compiled : CompiledSchema} {schema : Schema}

mutual

/-- Without strictness `valueOfJson?` reads of a value what it reads of `pruneValue` strictly, be this a value
or a failure. -/
theorem valueOfJson?_pruneValue (hl : compiled.IsLoaded schema) (hc : compiled.registry.IsClosed)
    {typeName : String} (hheld : compiled.registry.Holds typeName) (repeated : Bool) (json : Json) :
    schema.valueOfJson? false (if repeated then .list else .single) (linkedType typeName) json =
      schema.valueOfJson? true (if repeated then .list else .single) (linkedType typeName)
        (compiled.registry.pruneValue repeated typeName json) := by
  match repeated, json with
  | true, .arr items =>
    rw [Registry.pruneValue, if_pos rfl, if_pos rfl, valueOfJson?, valueOfJson?,
      itemsOfJson?_pruneItems hl hc hheld items]
  | true, .null | true, .bool _ | true, .int _ | true, .float _ | true, .str _ | true, .obj _ => rfl
  | false, .obj members =>
    rw [if_neg Bool.false_ne_true, Registry.pruneValue, if_neg Bool.false_ne_true]
    obtain ⟨kind, hkind⟩ | hregistered := hheld
    · have hscalar : ∀ strict other, schema.valueOfJson? strict .single (linkedType typeName) (.obj other) =
          none := by
        intro strict other
        rw [linkedType, hkind, valueOfJson?, kind.ofJson?_obj]
      split <;> rw [hscalar, hscalar]
    · obtain ⟨type, htype, rfl, ht⟩ := hl.types typeName hregistered
      rw [htype, ht.linkedType_name, ht.valueOfJson?_obj, ht.valueOfJson?_obj,
        fieldsOfJson?_pruneMembers hl hc ht.toIsLaidOut (hc _ type htype) [] members]
  | false, .null | false, .bool _ | false, .int _ | false, .float _ | false, .str _ | false, .arr _ =>
    exact (valueOfJson?_single_of_ne_obj schema true _ (by simp)).symm
termination_by structural json

/-- Without strictness `itemsOfJson?` reads of items what it reads of `pruneItems` strictly. -/
theorem itemsOfJson?_pruneItems (hl : compiled.IsLoaded schema) (hc : compiled.registry.IsClosed)
    {typeName : String} (hheld : compiled.registry.Holds typeName) (items : List Json) :
    schema.itemsOfJson? false (linkedType typeName) items =
      schema.itemsOfJson? true (linkedType typeName) (compiled.registry.pruneItems typeName items) := by
  match items with
  | [] => rfl
  | json :: rest =>
    have hfirst := valueOfJson?_pruneValue hl hc hheld false json
    rw [if_neg Bool.false_ne_true] at hfirst
    rw [Registry.pruneItems, itemsOfJson?, itemsOfJson?, hfirst, itemsOfJson?_pruneItems hl hc hheld rest]
termination_by structural items

/-- Without strictness `fieldsOfJson?` reads of members what it reads of `pruneMembers` strictly. -/
theorem fieldsOfJson?_pruneMembers (hl : compiled.IsLoaded schema) (hc : compiled.registry.IsClosed)
    {type : RegisteredType} (ht : type.IsLaidOut)
    (hfields : ∀ f ∈ type.fields, compiled.registry.Holds f.typeName) (values : FieldValues)
    (members : List (String × Json)) :
    schema.fieldsOfJson? false type.linked false values members =
      schema.fieldsOfJson? true type.linked false values (compiled.registry.pruneMembers type members) := by
  match members with
  | [] => rfl
  | (key, json) :: rest =>
    have hrest := fun values => fieldsOfJson?_pruneMembers hl hc ht hfields values rest
    rw [Registry.pruneMembers, fieldsOfJson?_cons_eq_bind]
    cases hmember : type.member? key with
    | none =>
      have hlinked : type.linked.member? key = none := by rw [ht.member?_linked_eq, hmember, Option.map_none]
      rw [setMember?_of_member?_eq_none hlinked]
      exact hrest values
    | some f =>
      have hlinked : type.linked.member? key = some f.linked := by
        rw [ht.member?_linked_eq, hmember, Option.map_some]
      have hvalue := valueOfJson?_pruneValue hl hc (hfields f (RegisteredType.mem_of_member? hmember))
        f.repeated json
      have hset : schema.ofMember f.linked json
            (schema.valueOfJson? false f.linked.shape f.linked.type json) =
          schema.ofMember f.linked (compiled.registry.pruneValue f.repeated f.typeName json)
            (schema.valueOfJson? true f.linked.shape f.linked.type
              (compiled.registry.pruneValue f.repeated f.typeName json)) := by
        by_cases hnull : json = .null
        · subst hnull
          rfl
        · rw [ofMember_of_ne_null hnull,
            ofMember_of_ne_null (mt Registry.pruneValue_eq_null_iff.mp hnull)]
          exact congrArg (Option.map some) hvalue
      dsimp only
      rw [fieldsOfJson?_cons_eq_bind, setMember?_of_oneof hlinked f.oneof_linked,
        setMember?_of_oneof hlinked f.oneof_linked, hset]
      simp only [hrest]
termination_by structural members

end

end CompiledSchema.IsLoaded

end Tagwire
