import Tagwire.Proofs.Mapping.Typed

/-!
# Messages that differ in the text of their type

Such messages stay in step while further fields are read, as no field looks at the text of the type, and
the two are shown as records that differ in the member of the type only.  So what stands behind this text
in the bytes of a message can be read whatever the text is.
-/

set_option autoImplicit false

namespace Tagwire

open Schema

/-! ## Bytes -/

/-- What `Scalar.string` decodes is a text. -/
theorem Scalar.exists_of_decode?_string {bytes rest : Bytes} {value : Value}
    (h : Scalar.string.decode? bytes = some (value, rest)) : ∃ text, value = .string text := by
  unfold decode? at h
  dsimp only [wireType] at h
  simp only [Option.bind_eq_bind, Option.bind_eq_some_iff, if_true] at h
  obtain ⟨⟨body, more⟩, -, text, -, hresult⟩ := h
  cases hresult
  exact ⟨text, rfl⟩

/-- The field `typeTag` is of the scalar kind `string`. -/
theorem RegisteredField.scalar?_typeTag : typeTag.linked.type.scalar? = some .string := by
  rw [linked_typeTag]
  rfl

/-- Both are `typed` of the same other fields, with texts that may differ. -/
def FieldValues.DifferInText (a b : FieldValues) : Prop :=
  ∃ s t others, a = FieldValues.typed s others ∧ b = FieldValues.typed t others

namespace RegisteredType.IsLoaded

variable {schema : Schema} {type : RegisteredType} {nested : NestedReader} {depth : Nat}

/-- Reading `typeTag` gives a text, whatever the field held before. -/
theorem readOver_typeTag (wire : WireType) (current : Option Value) (bytes : Bytes) :
    schema.readOver nested depth RegisteredField.typeTag.linked wire current bytes =
      if wire = .lengthDelimited then Scalar.string.decode? bytes else none := by
  rw [RegisteredField.linked_typeTag]
  rfl

/-- Reading a field keeps `DifferInText` between two messages, leaves the same bytes, and succeeds for both or
neither. -/
theorem readField_rel (ht : type.IsLoaded schema) (key : WireKey) {a b : FieldValues} (bytes : Bytes)
    (h : FieldValues.DifferInText a b) : Option.Rel (fun x y => FieldValues.DifferInText x.1 y.1 ∧ x.2 = y.2)
      (schema.readField nested depth type.linked key a bytes)
      (schema.readField nested depth type.linked key b bytes) := by
  obtain ⟨s, t, others, rfl, rfl⟩ := h
  cases hfield : type.linked.field? key.number with
  | none =>
    rw [readField_eq_of_unknown hfield, readField_eq_of_unknown hfield]
    exact rel_map_map fun rest _ => ⟨⟨s, t, others, rfl, rfl⟩, rfl⟩
  | some g =>
    rw [readField_eq_of_field? hfield, readField_eq_of_field? hfield]
    obtain ⟨f, hf, rfl, hnumber⟩ := exists_of_field? hfield
    simp only [(ht.declares hf).setField_eq, RegisteredField.number_linked]
    by_cases hone : f.number = 1
    · obtain rfl : f = .typeTag := ht.eq_of_number_eq hf ht.typeTag_mem hone
      rw [readOver_typeTag, readOver_typeTag]
      apply rel_map_map
      intro read hread
      obtain ⟨-, hread⟩ := Option.ite_none_right_eq_some.mp hread
      obtain ⟨text, htext⟩ := Scalar.exists_of_decode?_string hread
      rw [htext, hone, FieldValues.set_typed_one, FieldValues.set_typed_one]
      exact ⟨⟨text, text, others, rfl, rfl⟩, rfl⟩
    · have hset : ∀ text value, FieldValues.set (FieldValues.typed text others) f.number value =
          FieldValues.typed text (FieldValues.set others f.number value) :=
        fun text => FieldValues.set_typed (ht.one_lt_number hf hone)
      simp only [FieldValues.get?_typed hone, hset]
      exact rel_map_map fun read _ => ⟨⟨s, t, _, rfl, rfl⟩, rfl⟩

/-- Reading all fields keeps `DifferInText` between two messages, and succeeds for both or neither. -/
theorem readFields_typed_rel (ht : type.IsLoaded schema) (s t : String) (others : FieldValues)
    {fuel fuel' : Nat} {bytes : Bytes} (hfuel : bytes.length ≤ fuel) (hfuel' : bytes.length ≤ fuel') :
    Option.Rel (fun x y => FieldValues.DifferInText x.1 y.1 ∧ x.2 = y.2)
      (readFields (schema.readField (schema.nestedReader depth) depth type.linked) none fuel
        (FieldValues.typed s others) bytes)
      (readFields (schema.readField (schema.nestedReader depth) depth type.linked) none fuel'
        (FieldValues.typed t others) bytes) :=
  readFields_rel (consumes_readField (consumes_nestedReader depth) depth _)
    (fun key _ _ bytes h => ht.readField_rel key bytes h) ⟨s, t, others, rfl, rfl⟩ hfuel hfuel'

/-- The linked type of a loaded type declares `typeTag`. -/
theorem declares_typeTag (ht : type.IsLoaded schema) :
    type.linked.Declares RegisteredField.typeTag.linked :=
  ht.declares ht.typeTag_mem

/-- A message with a text that is not empty for its type starts with the key and the bytes of this text. -/
theorem encode_typed (ht : type.IsLoaded schema) {text : String} (hne : text ≠ "")
    (others : FieldValues) : schema.encode type.linked (FieldValues.typed text others) =
      RegisteredField.typeTag.linked.key .lengthDelimited ++ (Scalar.string.encode (.string text) ++
        schema.encode type.linked others) := by
  have hfield : type.linked.field? 1 = some RegisteredField.typeTag.linked := ht.declares_typeTag.found
  have homits : RegisteredField.typeTag.linked.omits (.string text) = false := by
    rw [RegisteredField.linked_typeTag]
    simpa [MessageField.omits, Value.isDefault] using hne.symm
  rw [FieldValues.typed, encode, hfield]
  dsimp only
  rw [encodeField_scalar RegisteredField.scalar?_typeTag rfl, homits, if_neg Bool.false_ne_true, List.append_assoc]
  rfl

/-- A message with a text that is not empty for its type is decoded by reading the other fields from behind the
text. -/
theorem exists_decode?_typed (ht : type.IsLoaded schema) {text : String} (hne : text ≠ "")
    (hlength : (Scalar.string.encode (.string text)).length < 2 ^ 64) (others : FieldValues) :
    ∃ fuel, (schema.encode type.linked others).length ≤ fuel ∧
      schema.decode? type.linked (schema.encode type.linked (FieldValues.typed text others)) =
        (readFields (schema.readField (schema.nestedReader maxNesting) maxNesting type.linked) none fuel
          (FieldValues.typed text []) (schema.encode type.linked others)).map Prod.fst := by
  have hkey := ht.declares_typeTag.decode?_key .lengthDelimited
    (Scalar.string.encode (.string text) ++ schema.encode type.linked others)
  have hwrites : Writes schema (schema.nestedReader maxNesting) RegisteredField.typeTag.linked
      .lengthDelimited (Scalar.string.encode (.string text)) (.string text) :=
    writes_scalar RegisteredField.scalar?_typeTag ⟨text, rfl⟩ hlength
  have hread : schema.readField (schema.nestedReader maxNesting) maxNesting type.linked
      ⟨1, .lengthDelimited⟩ [] (Scalar.string.encode (.string text) ++ schema.encode type.linked others) =
      some (FieldValues.typed text [], schema.encode type.linked others) :=
    readField_single ht.declares_typeTag.toFinds rfl hwrites (fun _ _ => rfl) _
  have hbehind := WireKey.length_lt_of_decode? hkey
  rw [← ht.encode_typed hne others] at hkey hbehind
  obtain ⟨fuel, hfuel⟩ : ∃ n, (schema.encode type.linked (FieldValues.typed text others)).length = n + 1 :=
    ⟨_ - 1, (Nat.sub_add_cancel (by omega)).symm⟩
  refine ⟨fuel, ?_, ?_⟩
  · rw [List.length_append] at hbehind
    omega
  · rw [decode?, readMessage_eq, hfuel, readFields_step hkey nofun hread]

/-- The bytes of two messages that differ in their texts only, none of which is empty, are decoded as two such
messages, or neither is decoded. -/
theorem decode?_typed_rel (ht : type.IsLoaded schema) {s t : String} (hs : s ≠ "") (ht' : t ≠ "")
    (hslength : (Scalar.string.encode (.string s)).length < 2 ^ 64)
    (htlength : (Scalar.string.encode (.string t)).length < 2 ^ 64) (others : FieldValues) :
    Option.Rel FieldValues.DifferInText
      (schema.decode? type.linked (schema.encode type.linked (FieldValues.typed s others)))
      (schema.decode? type.linked (schema.encode type.linked (FieldValues.typed t others))) := by
  obtain ⟨fuel, hfuel, hread⟩ := ht.exists_decode?_typed hs hslength others
  obtain ⟨fuel', hfuel', hread'⟩ := ht.exists_decode?_typed ht' htlength others
  rw [hread, hread']
  exact rel_map (ht.readFields_typed_rel s t [] hfuel hfuel') fun x y h => h.1

/-! ## JSON forms -/

variable {unpack : Unpack}

/-- The members of `unsetMembers` do not depend on the text of the type. -/
theorem unsetMembers_typed (schema : Schema) (message : MessageType) (s t : String)
    (others : FieldValues) : schema.unsetMembers message (FieldValues.typed s others) =
      schema.unsetMembers message (FieldValues.typed t others) := by
  unfold unsetMembers
  simp only [FieldValues.contains_typed s t others]

/-- The text of the type is the first member that `fieldsToJson?` shows, under `type`. -/
theorem fieldsToJson?_typed (ht : type.IsLoaded schema) (text : String) (others : FieldValues) :
    schema.fieldsToJson? unpack type.linked (FieldValues.typed text others) =
      (schema.fieldsToJson? unpack type.linked others).map ((typeField, .str text) :: ·) := by
  have hfield : type.linked.field? 1 = some RegisteredField.typeTag.linked := ht.declares_typeTag.found
  have hform : schema.valueToJson? unpack (.scalar .string) (.string text) = some (.str text) := by
    rw [valueToJson?]
    · rfl
    all_goals
      intro _ h
      cases h
  rw [FieldValues.typed, fieldsToJson?, hfield, RegisteredField.linked_typeTag]
  dsimp only
  rw [hform]
  cases schema.fieldsToJson? unpack type.linked others <;> rfl

/-- Messages with `DifferInText` show objects that differ under `type` only, or neither is shown. -/
theorem messageToJson?_rel (ht : type.IsLoaded schema) {a b : FieldValues}
    (h : FieldValues.DifferInText a b) :
    Option.Rel (fun x y => ∃ members others : Entries Json, x = .obj members ∧ y = .obj others ∧
        Assoc.IsSorted members ∧ Assoc.IsSorted others ∧
          ∀ key, key ≠ typeField → Entries.get? members key = Entries.get? others key)
      (schema.messageToJson? type.linked a) (schema.messageToJson? type.linked b) := by
  obtain ⟨s, t, others, rfl, rfl⟩ := h
  have hforms : ∀ text, schema.messageToJson? type.linked (FieldValues.typed text others) =
      (schema.fieldsToJson? schema.unpackAny? type.linked others).map fun members => .ofMembers
        (schema.unsetMembers type.linked (FieldValues.typed s others) ++ (typeField, .str text) :: members) := by
    intro text
    refine (ht.valueToJson?_message _).trans ?_
    rw [ht.fieldsToJson?_typed, unsetMembers_typed schema type.linked text s, Option.map_map]
    rfl
  rw [hforms s, hforms t]
  refine rel_map_map fun members _ => ⟨_, _, rfl, rfl, Entries.isSorted_ofList _,
    Entries.isSorted_ofList _, fun key hkey => ?_⟩
  rw [Entries.get?_eq, Entries.get?_eq, Entries.ofList, Entries.ofList, Entries.insertAll_eq,
    Entries.insertAll_eq]
  exact Assoc.get?_insertAll_append_cons [] _ members (Ne.symm hkey) (.str s) (.str t)

end RegisteredType.IsLoaded

end Tagwire
