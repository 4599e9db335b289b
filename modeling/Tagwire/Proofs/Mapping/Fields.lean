import Tagwire.Mapping.Writer
import Tagwire.Proofs.Except
import Tagwire.Proofs.Mapping.Linked
import Tagwire.Proofs.Mapping.Normal
import Tagwire.Proofs.Mapping.Reading

/-!
# Fields in normal form come back

What a member of a record holds becomes the value of a field, the field bytes, and the bytes a value with
the same JSON form again.  What is shown for a field follows from what holds of the records within it: it is
either written, and read in its place as something with this form, or left out, and then its default has it.
The bytes are as many as a length can tell.
-/

set_option autoImplicit false

namespace Tagwire

/-- No scalar kind reads null as a value. -/
theorem Scalar.ne_null_of_ofJson? {kind : Scalar} {json : Json} {value : Value}
    (h : kind.ofJson? json = some value) : json ≠ .null := by
  rintro rfl
  cases kind <;> cases h

namespace Schema

/-! ## What is to be shown -/

/-- What a field shows as: `valueToJson?` of its value, or `defaultToJson` if it has neither a value nor
presence. -/
def Shows (schema : Schema) (unpack : Unpack) (f : MessageField) (json : Json) : Option Value → Prop
  | none => f.presence = false ∧ schema.defaultToJson f = json
  | some value => schema.valueToJson? unpack f.type value = some json

/-- The object `json` is read as a message of the type `name`, and where its bytes are fewer than `2 ^ 64`, they
are read as a message that shows `json` again. -/
def RecordReturns (schema : Schema) (strict : Bool) (unpack : Unpack) (nested : NestedReader)
    (name : String) (json : Json) : Prop :=
  ∃ type values, schema.message? name = some type ∧ json ≠ .null ∧
    schema.valueOfJson? strict .single (.message name) json = some (.message values) ∧
    ((schema.encode type values).length < 2 ^ 64 →
      ∃ read, nested type none [] (schema.encode type values) = some (read, []) ∧
        schema.valueToJson? unpack (.message name) (.message read) = some json)

/-- The member `json` is read as a value of the field `f`, and where the bytes of the field are fewer than
`2 ^ 64`, the field is either left out and shows `json` as its default, or it adds to the message read so far a
value that shows `json`. -/
def FieldReturns (schema : Schema) (strict : Bool) (unpack : Unpack) (nested : NestedReader)
    (depth : Nat) (type : MessageType) (f : MessageField) (json : Json) : Prop :=
  json ≠ .null ∧ ∃ value, schema.valueOfJson? strict f.shape f.type json = some value ∧
    ((schema.encodeField f value).length < 2 ^ 64 →
      schema.encodeField f value = [] ∧ schema.Shows unpack f json none ∨
      ∃ read, Adds schema nested depth type f (schema.encodeField f value) read ∧
        schema.Shows unpack f json (some read))

variable {schema : Schema} {strict : Bool} {unpack : Unpack} {nested : NestedReader} {depth : Nat}

/-! ## Scalars -/

/-- A field of a scalar kind shows its value as `scalarJson` does. -/
theorem valueToJson?_scalar {kind : Scalar} {value : Value} (h : value.isScalar = true) :
    schema.valueToJson? unpack (.scalar kind) value = some value.scalarJson := by
  cases value <;> first | (cases h; done) | simp [valueToJson?, scalarToJson]

/-! ## Items -/

/-- Where `valueOfJson?` reads each item, `itemsOfJson?` reads them all. -/
theorem itemsOfJson?_eq_some {type : ValueType} {items : List Json} {values : List Value}
    (h : List.Forall₂ (fun json value => schema.valueOfJson? strict .single type json = some value)
      items values) : schema.itemsOfJson? strict type items = some values := by
  induction h with
  | nil => rw [itemsOfJson?]
  | cons hfirst _ ih => simp only [itemsOfJson?, hfirst, ih, Option.bind_eq_bind, Option.bind_some,
      Option.pure_def]

/-- Where `valueToJson?` shows each item, `itemsToJson?` shows them all. -/
theorem itemsToJson?_eq_some {type : ValueType} {values : List Value} {items : List Json}
    (h : List.Forall₂ (fun value json => schema.valueToJson? unpack type value = some json)
      values items) : schema.itemsToJson? unpack type values = some items := by
  induction h with
  | nil => rw [itemsToJson?]
  | cons hfirst _ ih => simp only [itemsToJson?, hfirst, ih, Option.bind_eq_bind, Option.bind_some,
      Option.pure_def]

/-! ## Members -/

/-- Members each of which addresses a field and has a value for it set these fields, one after the other. -/
theorem fieldsOfJson?_eq_some {type : MessageType} {members : List (String × Json)}
    {entries : List (Nat × Value)}
    (h : List.Forall₂ (fun m e => ∃ f, type.member? m.1 = some f ∧ f.oneof = none ∧
      schema.ofMember f m.2 (schema.valueOfJson? strict f.shape f.type m.2) = some (some e.2) ∧
      f.number = e.1) members entries)
    (values : FieldValues) :
    schema.fieldsOfJson? strict type false values members = some (Assoc.insertAll values entries) := by
  induction h generalizing values with
  | nil =>
    rw [fieldsOfJson?]
    rfl
  | @cons m e members entries hfirst _ ih =>
    obtain ⟨f, hf, hone, hmember, hnumber⟩ := hfirst
    rw [fieldsOfJson?_cons_eq_bind, setMember?_of_oneof hf hone, hmember, Option.map_some, Option.bind_some,
      Option.map_some, Option.getD_some, hnumber, FieldValues.set_eq]
    exact ih _

/-- Where `valueToJson?` shows each field that is set, `fieldsToJson?` shows it under its record key. -/
theorem fieldsToJson?_eq_some {type : MessageType} {values : List (Nat × Value)}
    {members : List (String × Json)}
    (h : List.Forall₂ (fun e m => ∃ f, type.field? e.1 = some f ∧
      schema.valueToJson? unpack f.type e.2 = some m.2 ∧ f.jsonName = m.1) values members) :
    schema.fieldsToJson? unpack type values = some members := by
  induction h with
  | nil => rw [fieldsToJson?]
  | @cons e m values members hfirst _ ih =>
    obtain ⟨f, hf, hform, hname⟩ := hfirst
    obtain ⟨number, value⟩ := e
    rw [fieldsToJson?, hf]
    simp only [hform, ih, Option.bind_eq_bind, Option.bind_some, Option.pure_def, hname]

/-- The record key of each field that is set is among the keys that `fieldsToJson?` shows. -/
theorem mem_keys_of_mem_values {type : MessageType} {values : List (Nat × Value)}
    {members : List (String × Json)} (h : schema.fieldsToJson? unpack type values = some members)
    {e : Nat × Value} (he : e ∈ values) {f : MessageField} (hf : type.field? e.1 = some f) :
    f.jsonName ∈ members.map Prod.fst := by
  induction values generalizing members with
  | nil => cases he
  | cons first rest ih =>
    obtain ⟨number, value⟩ := first
    rw [fieldsToJson?] at h
    rcases List.mem_cons.mp he with rfl | he
    · rw [hf] at h
      simp only [Option.bind_eq_bind, Option.bind_eq_some_iff, Option.pure_def, Option.some.injEq] at h
      obtain ⟨json, -, shown, -, rfl⟩ := h
      exact List.mem_cons_self
    · split at h
      · exact ih h he
      · simp only [Option.bind_eq_bind, Option.bind_eq_some_iff, Option.pure_def, Option.some.injEq] at h
        obtain ⟨json, -, shown, hshown, rfl⟩ := h
        exact List.mem_cons_of_mem _ (ih hshown he)

end Schema

namespace MessageType.IsOrdinary

open Schema

variable {schema : Schema} {unpack : Unpack} {type : MessageType} {f : MessageField}

/-- A message of an ordinary type shows as the object of its `unsetMembers` and the members that `fieldsToJson?`
shows. -/
theorem valueToJson?_message (ht : type.IsOrdinary schema) (values : FieldValues) :
    schema.valueToJson? unpack (.message type.name) (.message values) =
      (schema.fieldsToJson? unpack type values).map fun members =>
        .ofMembers (schema.unsetMembers type values ++ members) := by
  rw [valueToJson?]
  simp only [ValueType.name, ht.message, ht.form]

/-- The object that a message shows has a member for each field without presence. -/
theorem mem_keys_of_fieldsToJson? (ht : type.IsOrdinary schema) {values : FieldValues}
    {members : List (String × Json)} (h : schema.fieldsToJson? unpack type values = some members)
    (hf : f ∈ type.fields) (hpresence : f.presence = false) :
    f.jsonName ∈ (schema.unsetMembers type values ++ members).map Prod.fst := by
  rw [List.map_append, List.mem_append]
  cases hget : FieldValues.get? values f.number with
  | none =>
    have hunset : (f.jsonName, schema.defaultToJson f) ∈ schema.unsetMembers type values := by
      refine List.mem_map_of_mem (List.mem_filter.mpr ⟨hf, ?_⟩)
      rw [hpresence, FieldValues.contains, hget]
      rfl
    exact .inl (List.mem_map_of_mem (f := Prod.fst) hunset)
  | some value =>
    have hmem := FieldValues.mem_of_get?_eq_some hget
    exact .inr (mem_keys_of_mem_values h hmem (ht.field?_number hf))

end MessageType.IsOrdinary

namespace RegisteredType.IsLoaded

open Schema

variable {schema : Schema} {strict : Bool} {unpack : Unpack} {nested : NestedReader} {depth : Nat}
  {type : RegisteredType} {f : RegisteredField}

/-- An object is read as a message of a loaded type by `fieldsOfJson?`. -/
theorem valueOfJson?_obj (ht : type.IsLoaded schema) (members : List (String × Json)) :
    schema.valueOfJson? strict .single (.message type.name) (.obj members) =
      (schema.fieldsOfJson? strict type.linked false [] members).map .message := by
  exact valueOfJson?_ordinary ht.linked ht.ofTypeName?_eq_none members

/-- The member `type` with a text sets the field number 1 to this text. -/
theorem setMember?_typeTag (ht : type.IsLoaded schema) (values : FieldValues) (text : String) :
    schema.setMember? strict type.linked values (typeField, .str text) =
      some (FieldValues.set values 1 (.string text)) := by
  have htext : schema.valueOfJson? strict .single (.scalar .string) (.str text) = some (.string text) := by
    rw [valueOfJson?]
    rfl
  rw [setMember?_of_oneof (ht.member?_linked ht.typeTag_mem) (RegisteredField.oneof_linked _),
    RegisteredField.linked_typeTag]
  dsimp only
  rw [htext]
  rfl

/-- A message of a loaded type shows as the object of its `unsetMembers` and the members that `fieldsToJson?`
shows. -/
theorem valueToJson?_message (ht : type.IsLoaded schema) (values : FieldValues) :
    schema.valueToJson? unpack (.message type.name) (.message values) =
      (schema.fieldsToJson? unpack type.linked values).map fun members =>
        .ofMembers (schema.unsetMembers type.linked values ++ members) :=
  ht.isOrdinary.valueToJson?_message values

/-- The members that `unsetMembers` shows are those of the fields without presence that have not been read, each
with `defaultToJson`. -/
theorem mem_unsetMembers_iff (ht : type.IsLoaded schema) {read : FieldValues} {key : String}
    {json : Json} : (key, json) ∈ schema.unsetMembers type.linked read ↔
      ∃ f ∈ type.fields, f.name = key ∧ f.linked.presence = false ∧
        FieldValues.get? read f.number = none ∧ schema.defaultToJson f.linked = json := by
  unfold unsetMembers
  simp only [RegisteredType.linked, List.mem_map, List.mem_filter, Bool.and_eq_true, Bool.not_eq_true',
    FieldValues.contains, Option.isSome_eq_false_iff, Option.isNone_iff_eq_none, Prod.mk.injEq]
  constructor
  · rintro ⟨-, ⟨⟨f, hf, rfl⟩, hpresence, hnone⟩, hname, hdefault⟩
    exact ⟨f, hf, (ht.jsonName_linked hf).symm.trans hname, hpresence, hnone, hdefault⟩
  · rintro ⟨f, hf, hname, hpresence, hnone, hdefault⟩
    exact ⟨f.linked, ⟨⟨f, hf, rfl⟩, hpresence, hnone⟩, (ht.jsonName_linked hf).trans hname, hdefault⟩

/-- A field whose type name is the keyword of a scalar links to this scalar. -/
theorem type_linked_scalar {kind : Scalar} (hk : Scalar.ofKeyword? f.typeName = some kind) :
    f.linked.type = .scalar kind := by
  rw [RegisteredField.type_linked, linkedType, hk]

/-- A scalar in normal form returns in a singular field of its kind. -/
theorem fieldReturns_scalar (ht : type.IsLoaded schema) (hf : f ∈ type.fields) (hr : f.repeated = false)
    {kind : Scalar} (hk : Scalar.ofKeyword? f.typeName = some kind) {json : Json}
    (hn : kind.IsNormal json) :
    FieldReturns schema strict unpack nested depth type.linked f.linked json := by
  obtain ⟨value, hreads, hholds, hform, hdefault⟩ := Scalar.exists_represents hn
  have htype := type_linked_scalar hk
  have hscalar : f.linked.type.scalar? = some kind := by rw [htype]; rfl
  have hshape : f.linked.shape = .single := by rw [RegisteredField.shape_linked, hr]; rfl
  refine ⟨Scalar.ne_null_of_ofJson? hreads, value, ?_, fun hlength => ?_⟩
  · rw [hshape, htype, valueOfJson?, hreads]
  · have hvalue := Scalar.isScalar_of_holds hholds
    rw [encodeField_scalar hscalar hvalue] at hlength ⊢
    cases homits : f.linked.omits value with
    | true =>
      have hzero : f.linked.default = (ValueType.scalar kind).zero 0 := by
        rw [RegisteredField.default_linked, hr, ← htype]
        rfl
      rw [MessageField.omits, Bool.and_eq_true, Bool.not_eq_true', hzero] at homits
      refine .inl ⟨rfl, homits.1, ?_⟩
      rw [defaultToJson, hshape, htype, hzero]
      exact hdefault homits.2
    | false =>
      rw [homits, if_neg Bool.false_ne_true, List.length_append] at hlength
      refine .inr ⟨value, adds_single (ht.declares hf).toFinds hshape ?_, ?_⟩
      · exact writes_scalar hscalar hholds (by omega)
      · rw [Shows, htype, valueToJson?_scalar hvalue, hform]

/-- An object that returns as a record returns in a singular field of the type of the record. -/
theorem fieldReturns_record (ht : type.IsLoaded schema) (hf : f ∈ type.fields) (hr : f.repeated = false)
    (htype : f.linked.type = .message f.typeName) {json : Json}
    (h : RecordReturns schema strict unpack nested f.typeName json) :
    FieldReturns schema strict unpack nested depth type.linked f.linked json := by
  obtain ⟨message, values, hm, hne, hreads, hback⟩ := h
  have hshape : f.linked.shape = .single := by rw [RegisteredField.shape_linked, hr]; rfl
  have hpresence : f.linked.presence = true := by
    rw [RegisteredField.presence_linked, hr, RegisteredField.isMessage, ← RegisteredField.type_linked,
      htype]
    rfl
  have hchunk : schema.encodeField f.linked (.message values) =
      f.linked.key .lengthDelimited ++ lengthPrefixed (schema.encode message values) := by
    have homits : f.linked.omits (.message values) = false := by
      rw [MessageField.omits, hpresence]
      rfl
    have hname : f.linked.type.name = f.typeName := by rw [htype]; rfl
    rw [encodeField, homits, if_neg Bool.false_ne_true, hname, hm]
    rfl
  refine ⟨hne, .message values, ?_, fun hlength => ?_⟩
  · rw [hshape, htype, hreads]
  · rw [hchunk] at hlength ⊢
    have hbody : (schema.encode message values).length < 2 ^ 64 := by
      have := length_lt_lengthPrefixed (schema.encode message values)
      rw [List.length_append] at hlength
      omega
    obtain ⟨read, hread, hform⟩ := hback hbody
    refine .inr ⟨.message read, adds_single (ht.declares hf).toFinds hshape ?_, ?_⟩
    · exact writes_message htype hm rfl hread hbody
    · rw [Shows, htype, hform]

/-- An array returns in a repeated field, if its items are read one by one and, where there are any, their field
adds a list that shows the same items. -/
theorem fieldReturns_list (hr : f.repeated = true) {items : List Json} (values : List Value)
    (hreads : List.Forall₂
      (fun json value => schema.valueOfJson? strict .single f.linked.type json = some value) items values)
    (hback : values ≠ [] → (schema.encodeField f.linked (.list values)).length < 2 ^ 64 →
      ∃ reads, Adds schema nested depth type.linked f.linked
          (schema.encodeField f.linked (.list values)) (.list reads) ∧
        List.Forall₂ (fun value json => schema.valueToJson? unpack f.linked.type value = some json)
          reads items) :
    FieldReturns schema strict unpack nested depth type.linked f.linked (.arr items) := by
  have hshape : f.linked.shape = .list := by rw [RegisteredField.shape_linked, hr]; rfl
  refine ⟨by simp, .list values, ?_, fun hlength => ?_⟩
  · rw [hshape, valueOfJson?, itemsOfJson?_eq_some hreads, Option.map_some]
  · by_cases hempty : values = []
    · subst hempty
      cases hreads
      have homits : f.linked.omits (.list []) = true := by
        rw [MessageField.omits, RegisteredField.presence_linked, RegisteredField.default_linked, hr]
        rfl
      refine .inl ⟨?_, ?_, ?_⟩
      · rw [encodeField, if_pos homits]
      · rw [RegisteredField.presence_linked, hr]
        rfl
      · rw [defaultToJson, hshape]
    · obtain ⟨reads, hadds, hforms⟩ := hback hempty hlength
      refine .inr ⟨.list reads, hadds, ?_⟩
      rw [Shows, valueToJson?, itemsToJson?_eq_some hforms, Option.map_some]

/-- A list that is not empty is written packed if its type can be, and item by item otherwise. -/
theorem encodeField_list (hr : f.repeated = true) {values : List Value} (hne : values ≠ []) :
    schema.encodeField f.linked (.list values) =
      if f.linked.type.isPackable then f.linked.encodePacked values
      else schema.encodeItems f.linked values := by
  have homits : f.linked.omits (.list values) = false := by
    rw [MessageField.omits, RegisteredField.presence_linked, RegisteredField.default_linked, hr]
    cases values with
    | nil => exact absurd rfl hne
    | cons value rest => rfl
  have hpacked : f.linked.packed = f.linked.type.isPackable := by
    rw [RegisteredField.packed_linked, hr, Bool.true_and, RegisteredField.type_linked]
  rw [encodeField, homits, if_neg Bool.false_ne_true, hpacked]

/-- A repeated field is never left out for one item alone. -/
theorem omits_item (hr : f.repeated = true) {value : Value} (h : ∀ items, value ≠ .list items) :
    f.linked.omits value = false := by
  rw [MessageField.omits, RegisteredField.presence_linked, RegisteredField.default_linked, hr]
  cases value with
  | list items => exact absurd rfl (h items)
  | _ => rfl

/-- An array of scalars in normal form returns in a repeated field of their kind. -/
theorem fieldReturns_scalars (ht : type.IsLoaded schema) (hf : f ∈ type.fields) (hr : f.repeated = true)
    {kind : Scalar} (hk : Scalar.ofKeyword? f.typeName = some kind) {items : List Json}
    (hn : ∀ item ∈ items, kind.IsNormal item) :
    FieldReturns schema strict unpack nested depth type.linked f.linked (.arr items) := by
  obtain ⟨values, hvalues⟩ := exists_forall₂ fun item hitem => Scalar.exists_represents (hn item hitem)
  have htype := type_linked_scalar hk
  have hscalar : f.linked.type.scalar? = some kind := by rw [htype]; rfl
  have hshape : f.linked.shape = .list := by rw [RegisteredField.shape_linked, hr]; rfl
  have hholds : ∀ value ∈ values, kind.Holds value := by
    intro value hvalue
    obtain ⟨json, -, hrepresents⟩ := exists_of_forall₂ hvalues.flip hvalue
    exact hrepresents.holds
  refine fieldReturns_list hr values (hvalues.imp fun json value h => ?_) fun hne hlength => ⟨values, ?_, ?_⟩
  · rw [htype, valueOfJson?, h.reads]
  · rw [encodeField_list hr hne] at hlength ⊢
    cases hp : f.linked.type.isPackable with
    | true =>
      rw [hp, if_pos rfl] at hlength
      exact adds_packed (ht.declares hf) hshape hscalar hp (htype ▸ hp) hholds hlength
    | false =>
      rw [hp, if_neg Bool.false_ne_true] at hlength
      refine adds_items (ht.declares hf) hshape (List.forall₂_same.mpr fun value hvalue => ?_) hne
      have hchunk : schema.encodeField f.linked value =
          f.linked.key kind.wireType ++ kind.encode value := by
        rw [encodeField_scalar hscalar (Scalar.isScalar_of_holds (hholds value hvalue)),
          omits_item hr (by rintro _ rfl; cases Scalar.isScalar_of_holds (hholds _ hvalue)),
          if_neg Bool.false_ne_true]
      have hle := @length_encodeField_le_encodeItems schema f.linked _ _ hvalue
      rw [hchunk, List.length_append] at hle
      exact ⟨_, _, hchunk, writes_scalar hscalar (hholds value hvalue) (by omega)⟩
  · exact hvalues.flip.imp fun value json h => by
      rw [htype, valueToJson?_scalar (Scalar.isScalar_of_holds h.holds), h.form]

/-- An array of objects that return as records returns in a repeated field of their type. -/
theorem fieldReturns_records (ht : type.IsLoaded schema) (hf : f ∈ type.fields) (hr : f.repeated = true)
    (htype : f.linked.type = .message f.typeName) {items : List Json}
    (h : ∀ item ∈ items, RecordReturns schema strict unpack nested f.typeName item) :
    FieldReturns schema strict unpack nested depth type.linked f.linked (.arr items) := by
  have hshape : f.linked.shape = .list := by rw [RegisteredField.shape_linked, hr]; rfl
  have hp : f.linked.type.isPackable = false := by rw [htype]; rfl
  have hname : f.linked.type.name = f.typeName := by rw [htype]; rfl
  cases items with
  | nil => exact fieldReturns_list hr [] .nil fun hne => absurd rfl hne
  | cons first rest =>
    obtain ⟨message, -, hm, -⟩ := h first (by simp)
    have hitem : ∀ item ∈ first :: rest, ∃ values,
        schema.valueOfJson? strict .single f.linked.type item = some (.message values) ∧
        ((schema.encode message values).length < 2 ^ 64 →
          ∃ read, nested message none [] (schema.encode message values) = some (read, []) ∧
            schema.valueToJson? unpack f.linked.type (.message read) = some item) := by
      intro item hmem
      obtain ⟨other, values, ho, -, hreads, hback⟩ := h item hmem
      rw [hm, Option.some.injEq] at ho
      subst ho
      rw [htype]
      exact ⟨values, hreads, hback⟩
    obtain ⟨values, hvalues⟩ := exists_forall₂ hitem
    refine fieldReturns_list hr (values.map .message) ?_ fun hne hlength => ?_
    · exact List.forall₂_map_right_iff.mpr (hvalues.imp fun item value hv => hv.1)
    · rw [encodeField_list hr hne, hp, if_neg Bool.false_ne_true] at hlength ⊢
      have hchunk : ∀ v : FieldValues, schema.encodeField f.linked (.message v) =
          f.linked.key .lengthDelimited ++ lengthPrefixed (schema.encode message v) := by
        intro v
        rw [encodeField, omits_item hr (by simp), if_neg Bool.false_ne_true, hname, hm]
        rfl
      have hbody : ∀ v ∈ values, (schema.encode message v).length < 2 ^ 64 := by
        intro v hv
        have hle := @length_encodeField_le_encodeItems schema f.linked _ _
          (List.mem_map_of_mem (f := Value.message) hv)
        have hlt := length_lt_lengthPrefixed (schema.encode message v)
        rw [hchunk, List.length_append] at hle
        omega
      obtain ⟨reads, hwrites, hforms⟩ := exists_forall₂_between hvalues
        (s := fun v read => ItemWrites schema nested f.linked (.message v) (.message read))
        (t := fun read item =>
          schema.valueToJson? unpack f.linked.type (.message read) = some item) fun item v hv hback => by
            obtain ⟨read, hread, hform⟩ := hback.2 (hbody v hv)
            exact ⟨read, ⟨_, _, hchunk v, writes_message htype hm rfl hread (hbody v hv)⟩, hform⟩
      refine ⟨reads.map .message, adds_items (ht.declares hf) hshape ?_ hne, ?_⟩
      · rw [List.forall₂_map_left_iff, List.forall₂_map_right_iff]
        exact hwrites
      · exact List.forall₂_map_left_iff.mpr hforms

/-! ## Normal forms -/

/-- A value in normal form for a field returns, if each object within it that is in normal form for a record
type returns as a record of this type. -/
theorem fieldReturns_of_isNormal (ht : type.IsLoaded schema) (hf : f ∈ type.fields)
    (htype : Scalar.ofKeyword? f.typeName = none → f.linked.type = .message f.typeName)
    {normal : String → Json → Prop}
    (hnested : ∀ name json, normal name json → RecordReturns schema strict unpack nested name json)
    {json : Json} (h : f.IsNormal normal json) :
    FieldReturns schema strict unpack nested depth type.linked f.linked json := by
  unfold RegisteredField.IsNormal RegisteredField.IsNormalItem at h
  cases hk : Scalar.ofKeyword? f.typeName with
  | some kind =>
    rw [hk] at h
    cases hr : f.repeated with
    | true =>
      rw [hr, if_pos rfl] at h
      obtain ⟨items, rfl, hitems⟩ := h
      exact ht.fieldReturns_scalars hf hr hk hitems
    | false =>
      rw [hr, if_neg Bool.false_ne_true] at h
      exact ht.fieldReturns_scalar hf hr hk h
  | none =>
    rw [hk] at h
    cases hr : f.repeated with
    | true =>
      rw [hr, if_pos rfl] at h
      obtain ⟨items, rfl, hitems⟩ := h
      exact ht.fieldReturns_records hf hr (htype hk) fun item hitem => hnested _ _ (hitems item hitem)
    | false =>
      rw [hr, if_neg Bool.false_ne_true] at h
      exact ht.fieldReturns_record hf hr (htype hk) (hnested _ _ h)

end RegisteredType.IsLoaded

end Tagwire
