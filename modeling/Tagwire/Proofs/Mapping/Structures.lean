import Tagwire.Proofs.Mapping.Dynamic
import Tagwire.Proofs.Schema.Forms
import Tagwire.Proofs.Wire.Depth

/-!
# Dynamic values in a schema

The types of dynamic values hold a structure as a map, whose entries are no messages.  On the wire it is the list
of entries that the layout has; so a JSON value that a dynamic value shows is stored in these types with the bytes
that it has in the layout, where it nests deeper.
-/

set_option autoImplicit false

namespace Tagwire

open Schema SpecialForm

namespace DynamicValue

/-! ## What is stored -/

mutual

/-- The fields of a `Value` in a schema that a JSON value is stored as. -/
def stored : Json → FieldValues
  | .null => [(1, .int 0)]
  | .int n => [(2, .double (.ofInt n))]
  | .float x => [(2, .double x)]
  | .str s => [(3, .string s)]
  | .bool b => [(4, .bool b)]
  | .obj members => [(5, .message [(1, .map (storedMembers members))])]
  | .arr items => [(6, .message [(1, .list (storedItems items))])]

/-- The entries of the map of a `Struct` that members are stored as. -/
def storedMembers : List (String × Json) → List (MapKey × Value)
  | [] => []
  | (key, json) :: rest => (.string key, .message (stored json)) :: storedMembers rest

/-- The messages of a `ListValue` that items are stored as. -/
def storedItems : List Json → List Value
  | [] => []
  | json :: rest => .message (stored json) :: storedItems rest

end

mutual

/-- The nesting of `stored json` is `levels 0 json`: in a schema the entries of a map are no level. -/
theorem nesting_stored : (json : Json) → FieldValues.nesting (stored json) = levels 0 json
  | .null | .int _ | .float _ | .str _ | .bool _ => rfl
  | .obj members => by
    have hmembers := nestingOfEntries_stored members
    simp only [stored, FieldValues.nesting, Value.nesting, hmembers, Nat.max_zero, levels]
  | .arr items => by
    have hitems := nestingOfItems_stored items
    simp only [stored, FieldValues.nesting, Value.nesting, hitems, Nat.max_zero, levels]

/-- The nesting of `storedMembers members` is `levelsOfMembers 0 members`. -/
theorem nestingOfEntries_stored : (members : List (String × Json)) →
    Value.nestingOfEntries (storedMembers members) = levelsOfMembers 0 members
  | [] => rfl
  | (key, json) :: rest => by
    have hjson := nesting_stored json
    have hrest := nestingOfEntries_stored rest
    simp only [storedMembers, Value.nestingOfEntries, Value.nesting, hjson, hrest, levelsOfMembers, Nat.add_zero]

/-- The nesting of `storedItems items` is `levelsOfItems 0 items`. -/
theorem nestingOfItems_stored : (items : List Json) →
    Value.nestingOfItems (storedItems items) = levelsOfItems 0 items
  | [] => rfl
  | json :: rest => by
    have hjson := nesting_stored json
    have hrest := nestingOfItems_stored rest
    simp only [storedItems, Value.nestingOfItems, Value.nesting, hjson, hrest, levelsOfItems]

end

/-- The keys of `storedMembers` are those of the members, as texts. -/
theorem keys_storedMembers (members : List (String × Json)) :
    (storedMembers members).map Prod.fst = members.map fun m => MapKey.string m.1 := by
  induction members with
  | nil => rfl
  | cons m rest ih =>
    obtain ⟨key, json⟩ := m
    rw [storedMembers, List.map_cons, ih, List.map_cons]

/-- Members that are sorted by key are stored under distinct keys. -/
theorem nodup_keys_storedMembers {members : List (String × Json)} (h : Assoc.IsSorted members) :
    ((storedMembers members).map Prod.fst).Nodup := by
  rw [keys_storedMembers, ← Function.comp_def MapKey.string Prod.fst, ← List.map_map]
  exact h.nodup.map fun _ _ heq => MapKey.string.inj heq

end DynamicValue

/-! ## The types of dynamic values -/

namespace Schema

/-- The schema has the message types `Value`, `Struct` and `ListValue`, and the type of the entries of a
`Struct`. -/
structure HasDynamics (schema : Schema) (value struct list entry : MessageType) : Prop
    extends schema.IsCompiled where
  value : schema.message? WellKnown.value.typeName = some value
  struct : schema.message? WellKnown.struct.typeName = some struct
  list : schema.message? WellKnown.listValue.typeName = some list
  entry : schema.message? Bundled.fieldsEntry.name = some entry

/-- The field is plain and has this number, this type, this shape and this oneof, if any. -/
structure IsField (f : MessageField) (number : Nat) (type : ValueType) (shape : FieldShape)
    (choice : Option String) : Prop extends f.IsPlain where
  number_eq : f.number = number
  type_eq : f.type = type
  shape_eq : f.shape = shape
  oneof_eq : f.oneof = choice

variable {schema alien : Schema} {value struct list entry type : MessageType} {number : Nat}
  {f g : MessageField} {valueType : ValueType}

/-- The schema has the message type of a field with `IsField`. -/
theorem IsField.message? {name : String} {shape : FieldShape} {choice : Option String}
    (hf : IsField f number (.message name) shape choice) (hm : schema.message? name = some type) :
    schema.message? f.type.name = some type := by
  rw [hf.type_eq]
  exact hm

/-- A field of messages is not packed. -/
theorem IsField.packed_eq_false {name : String} {shape : FieldShape} {choice : Option String}
    (hf : IsField f number (.message name) shape choice) : f.packed = false := by
  rw [hf.packed, hf.type_eq]
  exact Bool.and_false _

/-- A type of `Bundled.dynamics` has under each of its numbers a field with the listed traits. -/
theorem IsCompiled.exists_isField (hs : schema.IsCompiled) (number : Nat) {name : String}
    (hm : schema.message? name = some type) {traits : List (Nat × ValueType × FieldShape × Option String)}
    (hd : (name, traits) ∈ Bundled.dynamics) {shape : FieldShape} {choice : Option String}
    (ht : traits.find? (fun t => t.1 == number) = some (number, valueType, shape, choice)) :
    ∃ f, type.field? number = some f ∧ IsField f number valueType shape choice := by
  obtain ⟨f, hf, hp, heq⟩ := hs.exists_field? hm hd ht
  unfold Bundled.traits at heq
  simp only [Prod.mk.injEq] at heq
  exact ⟨f, hf, hp, heq.1, heq.2.1, heq.2.2.1, heq.2.2.2⟩

namespace HasDynamics

/-- The type `Value` has under each number of `Bundled.choices` a field with the listed type, in the oneof
`kind`. -/
theorem exists_choice (h : schema.HasDynamics value struct list entry) (number : Nat)
    (ht : Bundled.choices.find? (fun t => t.1 == number) = some (number, valueType, .single, some "kind")) :
    ∃ f, value.field? number = some f ∧ IsField f number valueType .single (some "kind") :=
  h.exists_isField number h.value List.mem_cons_self ht

/-- The type `Struct` has under number 1 a map whose entries are messages of `fieldsEntry`. -/
theorem exists_map (h : schema.HasDynamics value struct list entry) :
    ∃ f, struct.field? 1 = some f ∧ IsField f 1 (.message Bundled.fieldsEntry.name) .map none :=
  h.exists_isField 1 h.struct (List.mem_cons_of_mem _ List.mem_cons_self) rfl

/-- The type `ListValue` has under number 1 a list of `Value` messages. -/
theorem exists_values (h : schema.HasDynamics value struct list entry) :
    ∃ f, list.field? 1 = some f ∧ IsField f 1 (.message WellKnown.value.typeName) .list none :=
  h.exists_isField 1 h.list (List.mem_cons_of_mem _ (List.mem_cons_of_mem _ List.mem_cons_self)) rfl

/-- An entry of a `Struct` has a text for its key, under number 1, and a `Value`, under number 2. -/
theorem exists_entry (h : schema.HasDynamics value struct list entry) :
    ∃ keyField valueField, entry.IsEntry .string keyField valueField ∧
      IsField keyField 1 (.scalar .string) .single none ∧
      IsField valueField 2 (.message WellKnown.value.typeName) .single none := by
  have hd : (Bundled.fieldsEntry.name, _) ∈ Bundled.dynamics :=
    List.mem_cons_of_mem _ (List.mem_cons_of_mem _ (List.mem_cons_of_mem _ List.mem_cons_self))
  obtain ⟨keyField, hkey, hk⟩ := h.exists_isField 1 h.entry hd rfl
  obtain ⟨valueField, hvalue, hv⟩ := h.exists_isField 2 h.entry hd rfl
  exact ⟨keyField, valueField, ⟨hkey, hvalue, rfl, hk.type_eq, hk.shape_eq, hv.shape_eq⟩, hk, hv⟩

end HasDynamics

/-! ## The same bytes -/

/-- Messages with the same bytes, in the schema and in another one, have the same bytes in fields with one
number. -/
theorem encodeField_message_eq (hf : f.IsPlain) (hg : g.IsPlain) (hnumber : f.number = g.number)
    {target alienTarget : MessageType} (hm : schema.message? f.type.name = some target)
    (hm' : alien.message? g.type.name = some alienTarget) {fields others : FieldValues}
    (hsame : schema.encode target fields = alien.encode alienTarget others) :
    schema.encodeField f (.message fields) = alien.encodeField g (.message others) := by
  rw [encodeField_message target (f.omits_message fields) hm,
    encodeField_message alienTarget (g.omits_message others) hm', hsame, MessageField.encodeBody,
    MessageField.encodeBody, hf.grouped, hg.grouped, if_neg Bool.false_ne_true, if_neg Bool.false_ne_true,
    MessageField.key, MessageField.key, hnumber]

/-- A scalar choice of a `Value` has in the schema the bytes that it has in the layout. -/
theorem encode_choice_scalar (hvalue : type.field? number = some f)
    (hf : IsField f number valueType .single (some "kind")) (name : String) (own : ValueType)
    (hlayout : SpecialForm.value.layout.field? number = some (choiceField name number own)) {kind : Scalar}
    (hk : valueType.scalar? = some kind) (hk' : own.scalar? = some kind) {scalar : Value}
    (hscalar : scalar.isScalar = true) :
    schema.encode type [(number, scalar)] = layouts.encode SpecialForm.value.layout [(number, scalar)] := by
  have hpresence : f.presence = true := by
    rw [hf.presence, hf.shape_eq, hf.oneof_eq]
    exact Bool.or_true _
  have hkind : (choiceField name number own).type.scalar? = some kind := hk'
  rw [encode_singleton hvalue, encode_singleton hlayout, encodeField_scalar (hf.type_eq ▸ hk) hscalar,
    encodeField_scalar hkind hscalar, MessageField.omits, MessageField.omits, hpresence, MessageField.key,
    hf.number_eq]
  rfl

end Schema

namespace DynamicValue

/-- The field `entryValueField` is plain. -/
theorem isPlain_entryValueField : entryValueField.IsPlain :=
  ⟨by decide, by decide, rfl, rfl, rfl, rfl, fun h => absurd rfl h⟩

variable {schema : Schema} {value struct list entry : MessageType}

mutual

/-- The message `stored json` has in the schema the bytes that `ofJson json` has in the layout. -/
theorem encode_stored (h : schema.HasDynamics value struct list entry) : (json : Json) →
    schema.encode value (stored json) = layouts.encode SpecialForm.value.layout (ofJson json)
  | .null => by
    obtain ⟨f, hfound, hf⟩ := h.exists_choice 1 rfl
    exact encode_choice_scalar hfound hf "null_value" (.scalar .int32) rfl rfl rfl rfl
  | .int _ | .float _ => by
    obtain ⟨f, hfound, hf⟩ := h.exists_choice 2 rfl
    exact encode_choice_scalar hfound hf "number_value" (.scalar .double) rfl rfl rfl rfl
  | .str _ => by
    obtain ⟨f, hfound, hf⟩ := h.exists_choice 3 rfl
    exact encode_choice_scalar hfound hf "string_value" (.scalar .string) rfl rfl rfl rfl
  | .bool _ => by
    obtain ⟨f, hfound, hf⟩ := h.exists_choice 4 rfl
    exact encode_choice_scalar hfound hf "bool_value" (.scalar .boolean) rfl rfl rfl rfl
  | .obj members => by
    obtain ⟨f, hfound, hf⟩ := h.exists_choice 5 rfl
    obtain ⟨map, hmap, hm⟩ := h.exists_map
    obtain ⟨keyField, valueField, hentry, hkey, hvalue⟩ := h.exists_entry
    rw [stored, ofJson, encode_singleton hfound,
      encode_singleton (f := choiceField "struct_value" 5 (.message "Struct")) rfl]
    refine encodeField_message_eq hf.toIsPlain (isPlain_choiceField (by decide) (by decide) _ _) hf.number_eq
      (hf.message? h.struct) rfl ?_
    rw [encode_singleton hmap, encode_singleton (f := messagesField "fields" 1 "Entry") rfl,
      encodeField_map (hm.message? h.entry) hentry, encodeField_list rfl,
      encode_storedMembers h hm hkey hvalue members]
  | .arr items => by
    obtain ⟨f, hfound, hf⟩ := h.exists_choice 6 rfl
    obtain ⟨values, hvalues, hv⟩ := h.exists_values
    rw [stored, ofJson, encode_singleton hfound,
      encode_singleton (f := choiceField "list_value" 6 (.message "List")) rfl]
    refine encodeField_message_eq hf.toIsPlain (isPlain_choiceField (by decide) (by decide) _ _) hf.number_eq
      (hf.message? h.list) rfl ?_
    rw [encode_singleton hvalues, encode_singleton (f := messagesField "values" 1 "Value") rfl,
      encodeField_list hv.packed_eq_false, encodeField_list rfl, encode_storedItems h hv items]

/-- The map `storedMembers members` has in the schema the bytes that `ofMembers members` has in the layout. -/
theorem encode_storedMembers (h : schema.HasDynamics value struct list entry)
    {f keyField valueField : MessageField} (hf : IsField f 1 (.message Bundled.fieldsEntry.name) .map none)
    (hkey : IsField keyField 1 (.scalar .string) .single none)
    (hvalue : IsField valueField 2 (.message WellKnown.value.typeName) .single none) :
    (members : List (String × Json)) →
    schema.encodeEntries f (some keyField) (some valueField) (storedMembers members) =
      layouts.encodeItems (messagesField "fields" 1 "Entry") (ofMembers members)
  | [] => rfl
  | (key, json) :: rest => by
    have hbody : schema.entryBody keyField valueField (.string key, .message (stored json)) =
        layouts.encode entryLayout [(1, .string key), (2, .message (ofJson json))] := by
      have hkeys : schema.encodeField keyField (.string key) =
          layouts.encodeField (scalarField "key" 1 .string) (.string key) :=
        encodeField_eq_of_isAlike hkey.toIsPlain (isPlain_scalarField (by decide) (by decide) _ _)
          ⟨hkey.number_eq, hkey.type_eq, hkey.shape_eq, hkey.oneof_eq⟩ hkey.type_eq
          (by rw [hkey.shape_eq, hkey.type_eq]; exact .scalar rfl ⟨key, rfl⟩)
      have hvalues : schema.encodeField valueField (.message (stored json)) =
          layouts.encodeField entryValueField (.message (ofJson json)) :=
        encodeField_message_eq hvalue.toIsPlain isPlain_entryValueField hvalue.number_eq
          (hvalue.message? h.value) rfl (encode_stored h json)
      have hscalar : (if keyField.omits (.string key) then [] else keyField.encodeScalar (.string key)) =
          schema.encodeField keyField (.string key) := by
        simp only [encodeField]
      rw [encode, encode_singleton (f := entryValueField) rfl, entryBody, ← hvalues]
      exact congrArg (· ++ _) (hscalar.trans hkeys)
    rw [storedMembers, ofMembers, encodeEntries_cons, encodeItems, hbody,
      encode_storedMembers h hf hkey hvalue rest, encodeField_message entryLayout rfl rfl, MessageField.key,
      hf.number_eq]
    rfl

/-- The list `storedItems items` has in the schema the bytes that `ofItems items` has in the layout. -/
theorem encode_storedItems (h : schema.HasDynamics value struct list entry) {f : MessageField}
    (hf : IsField f 1 (.message WellKnown.value.typeName) .list none) : (items : List Json) →
    schema.encodeItems f (storedItems items) =
      layouts.encodeItems (messagesField "values" 1 "Value") (ofItems items)
  | [] => rfl
  | json :: rest => by
    have hitem : schema.encodeField f (.message (stored json)) =
        layouts.encodeField (messagesField "values" 1 "Value") (.message (ofJson json)) :=
      encodeField_message_eq hf.toIsPlain (isPlain_messagesField (by decide) (by decide) _ _) hf.number_eq
        (hf.message? h.value) rfl (encode_stored h json)
    rw [storedItems, ofItems, encodeItems, encodeItems, hitem, encode_storedItems h hf rest]

end

/-- A `Struct` of `storedMembers` has in the schema the bytes that it has in the layout. -/
theorem encode_storedStruct (h : schema.HasDynamics value struct list entry) (members : List (String × Json)) :
    schema.encode struct [(1, .map (storedMembers members))] =
      layouts.encode SpecialForm.struct.layout [(1, .list (ofMembers members))] := by
  obtain ⟨map, hmap, hm⟩ := h.exists_map
  obtain ⟨keyField, valueField, hentry, hkey, hvalue⟩ := h.exists_entry
  rw [encode_singleton hmap, encode_singleton (f := messagesField "fields" 1 "Entry") rfl,
    encodeField_map (hm.message? h.entry) hentry, encodeField_list rfl,
    encode_storedMembers h hm hkey hvalue members]

/-- A `ListValue` of `storedItems` has in the schema the bytes that it has in the layout. -/
theorem encode_storedList (h : schema.HasDynamics value struct list entry) (items : List Json) :
    schema.encode list [(1, .list (storedItems items))] =
      layouts.encode SpecialForm.listValue.layout [(1, .list (ofItems items))] := by
  obtain ⟨values, hvalues, hv⟩ := h.exists_values
  rw [encode_singleton hvalues, encode_singleton (f := messagesField "values" 1 "Value") rfl,
    encodeField_list hv.packed_eq_false, encodeField_list rfl, encode_storedItems h hv items]

/-! ## What is stored is of the types -/

/-- The keys of `storedMembers` are texts. -/
theorem holds_key_of_mem_storedMembers {members : List (String × Json)} {e : MapKey × Value}
    (he : e ∈ storedMembers members) : Scalar.string.Holds e.1.toValue := by
  have hkey := List.mem_map_of_mem (f := Prod.fst) he
  rw [keys_storedMembers] at hkey
  obtain ⟨m, -, heq⟩ := List.mem_map.mp hkey
  exact ⟨m.1, by rw [← heq]; rfl⟩

/-- The map `storedMembers members` under number 1 is a `Struct`, if the values in it are of type `Value`. -/
theorem holds_struct (h : schema.HasDynamics value struct list entry) {members : List (String × Json)}
    (hs : Assoc.IsSorted members)
    (hvalues : ∀ e ∈ storedMembers members, schema.Holds .single (.message WellKnown.value.typeName) e.2) :
    struct.Holds schema [(1, .map (storedMembers members))] := by
  obtain ⟨map, hmap, hm⟩ := h.exists_map
  obtain ⟨keyField, valueField, hentry, -, hvalue⟩ := h.exists_entry
  refine MessageType.holds_singleton hmap ?_
  rw [hm.shape_eq, hm.type_eq]
  exact .map h.entry hentry (nodup_keys_storedMembers hs) (fun e he => holds_key_of_mem_storedMembers he)
    (hvalue.type_eq ▸ hvalues)

/-- The list `storedItems items` under number 1 is a `ListValue`, if its items are of type `Value`. -/
theorem holds_list (h : schema.HasDynamics value struct list entry) {items : List Json}
    (hitems : ∀ item ∈ storedItems items, schema.Holds .single (.message WellKnown.value.typeName) item) :
    list.Holds schema [(1, .list (storedItems items))] := by
  obtain ⟨values, hvalues, hv⟩ := h.exists_values
  refine MessageType.holds_singleton hvalues ?_
  rw [hv.shape_eq, hv.type_eq]
  exact .list hitems

/-- A value of the type of a choice under its number is a `Value`. -/
theorem holds_choice (h : schema.HasDynamics value struct list entry) {number : Nat} {valueType : ValueType}
    (ht : Bundled.choices.find? (fun t => t.1 == number) = some (number, valueType, .single, some "kind"))
    {own : Value} (hown : schema.Holds .single valueType own) : value.Holds schema [(number, own)] := by
  obtain ⟨f, hfound, hf⟩ := h.exists_choice number ht
  refine MessageType.holds_singleton hfound ?_
  rw [hf.shape_eq, hf.type_eq]
  exact hown

mutual

/-- The fields `stored json` are a `Value`, for a JSON value that `IsShown`. -/
theorem holds_stored (h : schema.HasDynamics value struct list entry) : (json : Json) → IsShown json →
    value.Holds schema (stored json)
  | .null, _ => holds_choice h rfl (.scalar rfl (show Scalar.int32.Holds _ from ⟨0, rfl, by decide, by decide⟩))
  | .int n, _ => holds_choice h rfl (.scalar rfl (show Scalar.double.Holds _ from ⟨.ofInt n, rfl⟩))
  | .float x, _ => holds_choice h rfl (.scalar rfl (show Scalar.double.Holds _ from ⟨x, rfl⟩))
  | .str s, _ => holds_choice h rfl (.scalar rfl (show Scalar.string.Holds _ from ⟨s, rfl⟩))
  | .bool b, _ => holds_choice h rfl (.scalar rfl (show Scalar.boolean.Holds _ from ⟨b, rfl⟩))
  | .obj members, hshown =>
    holds_choice h rfl (holds_message_iff.mpr
      ⟨struct, _, h.struct, rfl, holds_struct h hshown.1 (holds_of_mem_storedMembers h members hshown.2)⟩)
  | .arr items, hshown =>
    holds_choice h rfl (holds_message_iff.mpr
      ⟨list, _, h.list, rfl, holds_list h (holds_of_mem_storedItems h items hshown)⟩)

/-- The values of `storedMembers members` are of type `Value`, for members that are shown. -/
theorem holds_of_mem_storedMembers (h : schema.HasDynamics value struct list entry) :
    (members : List (String × Json)) → MembersAreShown members →
    ∀ e ∈ storedMembers members, schema.Holds .single (.message WellKnown.value.typeName) e.2
  | [], _ => fun _ h => absurd h List.not_mem_nil
  | (key, json) :: rest, hshown => by
    rw [storedMembers, List.forall_mem_cons]
    exact ⟨holds_message_iff.mpr ⟨value, _, h.value, rfl, holds_stored h json hshown.1⟩,
      holds_of_mem_storedMembers h rest hshown.2⟩

/-- The items of `storedItems items` are of type `Value`, for items that are shown. -/
theorem holds_of_mem_storedItems (h : schema.HasDynamics value struct list entry) : (items : List Json) →
    ItemsAreShown items →
      ∀ item ∈ storedItems items, schema.Holds .single (.message WellKnown.value.typeName) item
  | [], _ => fun _ h => absurd h List.not_mem_nil
  | json :: rest, hshown => by
    rw [storedItems, List.forall_mem_cons]
    exact ⟨holds_message_iff.mpr ⟨value, _, h.value, rfl, holds_stored h json hshown.1⟩,
      holds_of_mem_storedItems h rest hshown.2⟩

end

end DynamicValue

/-! ## What comes back -/

namespace SpecialForm

open DynamicValue

variable {schema : Schema} {value struct list entry : MessageType} {g : Binary64 → Binary64} {levels : Nat}
  {values : FieldValues}

/-- What a `Value` shows is read back as `stored json`, if it nests at most `maxNesting` levels in the layout
and fewer than `levels` in the schema. -/
theorem readsBack_value (h : schema.HasDynamics value struct list entry) {json : Json}
    (hjson : SpecialForm.value.toJson? values = some json) (hsize : json.size < 2 ^ 56)
    (hlayout : DynamicValue.levels 1 json ≤ maxNesting) (hlevels : DynamicValue.levels 0 json < levels) :
    SpecialForm.value.ReadsBack schema value g levels json (ofJson json) (stored json) where
  toReturns := returns_value hjson hsize
  depth := (nesting_ofJson json).trans_le hlayout
  stores := holds_stored h json (isShown_spec.1 _ json hjson)
  nesting := (nesting_stored json).trans_lt hlevels
  same := encode_stored h json

/-- What a `Struct` shows is read back as its `storedMembers`, within the same bounds. -/
theorem readsBack_struct (h : schema.HasDynamics value struct list entry) {members : Entries Json}
    (hjson : SpecialForm.struct.toJson? values = some (.obj members))
    (hsize : (Json.obj members).size < 2 ^ 56) (hlayout : levelsOfMembers 1 members ≤ maxNesting)
    (hlevels : levelsOfMembers 0 members < levels) :
    SpecialForm.struct.ReadsBack schema struct g levels (.obj members) [(1, .list (ofMembers members))]
      [(1, .map (storedMembers members))] := by
  obtain ⟨more, hmore, heq⟩ := Option.map_eq_some_iff.mp hjson
  have hshown : IsShown (.obj members) := heq ▸ isShown_ofMembers (isShown_spec.2.2.2.1 _ more hmore)
  refine ⟨returns_struct hjson hsize, ?_, ?_, ?_, ?_⟩
  · rw [FieldValues.nesting, Value.nesting, nestingOfItems_ofMembers]
    exact Nat.max_le.mpr ⟨hlayout, Nat.zero_le _⟩
  · exact holds_struct h hshown.1 (holds_of_mem_storedMembers h members hshown.2)
  · rw [FieldValues.nesting, Value.nesting, nestingOfEntries_stored]
    exact Nat.max_lt.mpr ⟨hlevels, Nat.zero_lt_of_lt hlevels⟩
  · exact encode_storedStruct h members

/-- What a `ListValue` shows is read back as its `storedItems`, within the same bounds. -/
theorem readsBack_listValue (h : schema.HasDynamics value struct list entry) {items : List Json}
    (hjson : SpecialForm.listValue.toJson? values = some (.arr items)) (hsize : (Json.arr items).size < 2 ^ 56)
    (hlayout : levelsOfItems 1 items ≤ maxNesting) (hlevels : levelsOfItems 0 items < levels) :
    SpecialForm.listValue.ReadsBack schema list g levels (.arr items) [(1, .list (ofItems items))]
      [(1, .list (storedItems items))] := by
  obtain ⟨more, hmore, heq⟩ := Option.map_eq_some_iff.mp hjson
  have hshown : IsShown (.arr items) := heq ▸ isShown_spec.2.1 _ more hmore
  refine ⟨returns_listValue hjson hsize, ?_, ?_, ?_, ?_⟩
  · rw [FieldValues.nesting, Value.nesting, nestingOfItems_ofItems]
    exact Nat.max_le.mpr ⟨hlayout, Nat.zero_le _⟩
  · exact holds_list h (holds_of_mem_storedItems h items hshown)
  · rw [FieldValues.nesting, Value.nesting, nestingOfItems_stored]
    exact Nat.max_lt.mpr ⟨hlevels, Nat.zero_lt_of_lt hlevels⟩
  · exact encode_storedList h items

end SpecialForm

/-! ## Schemas that have dynamic values -/

namespace Schema.IsCompiled

variable {schema : Schema} {value struct list : MessageType}

/-- A compiled schema has the message type of each field of messages of its types. -/
theorem exists_message? (hs : schema.IsCompiled) {name other : String} {type : MessageType}
    (hm : schema.message? name = some type) {number : Nat} {f : MessageField}
    (hf : type.field? number = some f) (htype : f.type = .message other) :
    ∃ target, schema.message? other = some target := by
  obtain ⟨target, htarget, -⟩ := (hs.types name type hm).messages f (List.mem_of_find?_eq_some hf) other htype
  exact ⟨target, htarget⟩

/-- A compiled schema that has `Value` has all types of dynamic values. -/
theorem exists_hasDynamics (hs : schema.IsCompiled)
    (hvalue : schema.message? WellKnown.value.typeName = some value) :
    ∃ struct list entry, schema.HasDynamics value struct list entry := by
  obtain ⟨f, hf, hown⟩ := hs.exists_isField 5 hvalue List.mem_cons_self rfl
  obtain ⟨struct, hstruct⟩ := hs.exists_message? hvalue hf hown.type_eq
  obtain ⟨f, hf, hown⟩ := hs.exists_isField 6 hvalue List.mem_cons_self rfl
  obtain ⟨list, hlist⟩ := hs.exists_message? hvalue hf hown.type_eq
  obtain ⟨f, hf, hown⟩ := hs.exists_isField 1 hstruct
    (List.mem_cons_of_mem _ List.mem_cons_self) rfl
  obtain ⟨entry, hentry⟩ := hs.exists_message? hstruct hf hown.type_eq
  exact ⟨struct, list, entry, hs, hvalue, hstruct, hlist, hentry⟩

/-- A compiled schema that has `Struct` has all types of dynamic values. -/
theorem exists_hasDynamics_struct (hs : schema.IsCompiled)
    (hstruct : schema.message? WellKnown.struct.typeName = some struct) :
    ∃ value list entry, schema.HasDynamics value struct list entry := by
  obtain ⟨f, hf, hown⟩ := hs.exists_isField 1 hstruct
    (List.mem_cons_of_mem _ List.mem_cons_self) rfl
  obtain ⟨entry, hentry⟩ := hs.exists_message? hstruct hf hown.type_eq
  obtain ⟨f, hf, hown⟩ := hs.exists_isField 2 hentry
    (List.mem_cons_of_mem _ (List.mem_cons_of_mem _ (List.mem_cons_of_mem _ List.mem_cons_self))) rfl
  obtain ⟨value, hvalue⟩ := hs.exists_message? hentry hf hown.type_eq
  obtain ⟨own, list, entry, h⟩ := hs.exists_hasDynamics hvalue
  obtain rfl : own = struct := Option.some.inj (h.struct.symm.trans hstruct)
  exact ⟨value, list, entry, h⟩

/-- A compiled schema that has `ListValue` has all types of dynamic values. -/
theorem exists_hasDynamics_list (hs : schema.IsCompiled)
    (hlist : schema.message? WellKnown.listValue.typeName = some list) :
    ∃ value struct entry, schema.HasDynamics value struct list entry := by
  obtain ⟨f, hf, hown⟩ := hs.exists_isField 1 hlist
    (List.mem_cons_of_mem _ (List.mem_cons_of_mem _ List.mem_cons_self)) rfl
  obtain ⟨value, hvalue⟩ := hs.exists_message? hlist hf hown.type_eq
  obtain ⟨struct, own, entry, h⟩ := hs.exists_hasDynamics hvalue
  obtain rfl : own = list := Option.some.inj (h.list.symm.trans hlist)
  exact ⟨value, struct, entry, h⟩

end Schema.IsCompiled

end Tagwire
