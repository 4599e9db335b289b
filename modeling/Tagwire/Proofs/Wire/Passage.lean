import Tagwire.Proofs.Wire.Typing

/-!
# Over the wire

What is read of the bytes of a message is the message without the fields that were left out, and writing it
once more gives the same bytes.  So a message changes on its first way over the wire at most, and what it
loses then are defaults of fields that do not tell a default from nothing, and the sign of a zero that is left
out of an entry of a map.
-/

set_option autoImplicit false

namespace Tagwire

namespace Schema

/-! ## What is kept -/

mutual

/-- The fields of a message that its bytes hold: all but those that their field `omits`, and what is kept of
their values. -/
def kept (schema : Schema) (type : MessageType) : List (Nat × Value) → FieldValues
  | [] => []
  | (number, value) :: rest =>
    match type.field? number with
    | some f =>
      if f.omits value then schema.kept type rest
      else (number, schema.keptValue f.type value) :: schema.kept type rest
    | none => schema.kept type rest

/-- A value without what is left out of the messages in it. -/
def keptValue (schema : Schema) (type : ValueType) : Value → Value
  | .message fields =>
    match schema.message? type.name with
    | some message => .message (schema.kept message fields)
    | none => .message fields
  | .list items => .list (schema.keptItems type items)
  | .map entries =>
    match (schema.message? type.name).bind fun entry => entry.field? 2 with
    | some f => .map (schema.keptEntries f entries)
    | none => .map entries
  | scalar => scalar

/-- The items of a list without what is left out of the messages in them. -/
def keptItems (schema : Schema) (type : ValueType) : List Value → List Value
  | [] => []
  | item :: rest => schema.keptValue type item :: schema.keptItems type rest

/-- The entries of a map without what is left out of the messages in them; a value that its field `omits`
becomes the default, since it loses the sign of a zero. -/
def keptEntries (schema : Schema) (f : MessageField) : List (MapKey × Value) → List (MapKey × Value)
  | [] => []
  | (key, value) :: rest =>
    (key, if f.omits value then value.unsigned else schema.keptValue f.type value) ::
      schema.keptEntries f rest

end

variable {schema : Schema} {type : MessageType} {f : MessageField}

/-- Of a list `keptItems` keeps each item with `keptValue`. -/
theorem keptItems_eq_map (type : ValueType) (items : List Value) :
    schema.keptItems type items = items.map (schema.keptValue type) := by
  induction items with
  | nil => rfl
  | cons item rest ih => rw [keptItems, ih, List.map_cons]

/-- What is kept of the value of an entry of a map: `unsigned` if its field `omits` it, and `keptValue`
otherwise. -/
def keptInEntry (schema : Schema) (f : MessageField) (value : Value) : Value :=
  if f.omits value then value.unsigned else schema.keptValue f.type value

/-- Of a map `keptEntries` keeps each key, with `keptInEntry` of its value. -/
theorem keptEntries_eq_map (f : MessageField) (entries : List (MapKey × Value)) :
    schema.keptEntries f entries = entries.map fun e => (e.1, schema.keptInEntry f e.2) := by
  induction entries with
  | nil => rfl
  | cons e rest ih =>
    obtain ⟨key, value⟩ := e
    rw [keptEntries, ih, List.map_cons, keptInEntry]

/-- Of a map `keptValue` keeps each key, with `keptInEntry` of its value for the field of the values. -/
theorem keptValue_map {name : String} {target : MessageType} {kind : Scalar}
    {keyField valueField : MessageField} (hm : schema.message? name = some target)
    (he : target.IsEntry kind keyField valueField) (entries : List (MapKey × Value)) :
    schema.keptValue (.message name) (.map entries) =
      .map (entries.map fun e => (e.1, schema.keptInEntry valueField e.2)) := by
  rw [keptValue]
  simp only [ValueType.name, hm, Option.bind_some, he.value, keptEntries_eq_map]

/-- Whether a value `isDefault` does not depend on the sign of a zero. -/
theorem isDefault_unsigned (default value : Value) :
    default.isDefault value.unsigned = default.isDefault value := by
  cases value with
  | double x =>
    rw [Value.unsigned]
    cases default <;> try rfl
    rw [Value.isDefault, Value.isDefault]
    split
    · rename_i hzero
      rw [hzero]
      rfl
    · rfl
  | float x =>
    rw [Value.unsigned]
    cases default <;> try rfl
    rw [Value.isDefault, Value.isDefault]
    split
    · rename_i hzero
      rw [hzero]
      rfl
    · rfl
  | _ => rfl

/-- The nesting of a value does not depend on the sign of a zero. -/
theorem nesting_unsigned (value : Value) : value.unsigned.nesting = value.nesting := by
  cases value <;> rfl

/-- A scalar is kept as it is. -/
theorem keptValue_scalar (type : ValueType) {value : Value} (h : value.isScalar = true) :
    schema.keptValue type value = value := by
  cases value <;> first | (cases h; done) | simp only [keptValue]

/-- What `keptValue` leaves of a value `isDefault` exactly if the value does. -/
theorem isDefault_keptValue (type : ValueType) (default value : Value) :
    default.isDefault (schema.keptValue type value) = default.isDefault value := by
  cases value with
  | message fields =>
    rw [keptValue]
    cases schema.message? type.name <;> cases default <;> rfl
  | list items =>
    rw [keptValue, keptItems_eq_map]
    cases default <;> cases items <;> rfl
  | map entries =>
    rw [keptValue]
    split
    · rw [keptEntries_eq_map]
      cases default <;> cases entries <;> rfl
    · rfl
  | _ => rw [keptValue_scalar type rfl]

/-- A field `omits` what `keptValue` leaves of a value exactly if it omits the value. -/
theorem omits_keptValue (type : ValueType) (f : MessageField) (value : Value) :
    f.omits (schema.keptValue type value) = f.omits value := by
  rw [MessageField.omits, MessageField.omits, isDefault_keptValue]

/-! ## The same bytes -/

/-- What `keptValue` leaves of a value has the bytes of the value under each scalar kind. -/
theorem encode_keptValue (kind : Scalar) (type : ValueType) (value : Value) :
    kind.encode (schema.keptValue type value) = kind.encode value := by
  cases value with
  | message fields =>
    rw [keptValue]
    cases schema.message? type.name <;> cases kind <;> rfl
  | list items =>
    rw [keptValue]
    cases kind <;> rfl
  | map entries =>
    rw [keptValue]
    split <;> cases kind <;> rfl
  | _ => rw [keptValue_scalar type rfl]

/-- What `keptItems` leaves of a packed list has the bytes of the list. -/
theorem encodePacked_keptItems (f : MessageField) (type : ValueType) (items : List Value) :
    f.encodePacked (schema.keptItems type items) = f.encodePacked items := by
  unfold MessageField.encodePacked
  cases f.type.scalar? with
  | none => rfl
  | some kind =>
    dsimp only
    rw [keptItems_eq_map, List.flatMap_map]
    simp only [encode_keptValue]

mutual

/-- What `kept` leaves of a message has the bytes of the message. -/
theorem encode_kept (schema : Schema) (type : MessageType) :
    (values : List (Nat × Value)) → schema.encode type (schema.kept type values) = schema.encode type values
  | [] => rfl
  | (number, value) :: rest => by
    rw [kept, encode]
    cases hf : type.field? number with
    | none =>
      dsimp only
      rw [encode_kept schema type rest, List.nil_append]
    | some f =>
      dsimp only
      cases homits : f.omits value with
      | true =>
        have hempty : schema.encodeField f value = [] := by rw [encodeField.eq_def, if_pos homits]
        rw [if_pos rfl, hempty, encode_kept schema type rest, List.nil_append]
      | false =>
        rw [if_neg Bool.false_ne_true, encode, hf, encode_kept schema type rest]
        dsimp only
        rw [encodeField_keptValue schema f value]

/-- What `keptValue` leaves of a value has the bytes of the value in its field. -/
theorem encodeField_keptValue (schema : Schema) (f : MessageField) :
    (value : Value) → schema.encodeField f (schema.keptValue f.type value) = schema.encodeField f value
  | .message fields => by
    have homits := schema.omits_keptValue f.type f (.message fields)
    rw [keptValue] at homits ⊢
    cases hm : schema.message? f.type.name with
    | none => rfl
    | some message =>
      rw [hm] at homits
      dsimp only at homits ⊢
      rw [encodeField, encodeField, homits, hm]
      dsimp only
      rw [encode_kept schema message fields]
  | .list items => by
    have homits := schema.omits_keptValue f.type f (.list items)
    rw [keptValue] at homits ⊢
    rw [encodeField, encodeField, homits, encodeItems_keptItems schema f items, encodePacked_keptItems]
  | .map entries => by
    have homits := schema.omits_keptValue f.type f (.map entries)
    rw [keptValue] at homits ⊢
    cases hm : schema.message? f.type.name with
    | none => rfl
    | some message =>
      rw [hm] at homits
      rw [Option.bind_some] at homits ⊢
      cases hg : message.field? 2 with
      | none => rfl
      | some g =>
        rw [hg] at homits
        dsimp only at homits ⊢
        rw [encodeField, encodeField, homits, hm]
        dsimp only
        rw [hg, encodeEntries_keptEntries schema f (message.field? 1) g entries]
  | .bool _ | .int _ | .float _ | .double _ | .string _ | .bytes _ => by
    rw [keptValue_scalar f.type rfl]

/-- What `keptItems` leaves of a list has the bytes of the list. -/
theorem encodeItems_keptItems (schema : Schema) (f : MessageField) :
    (items : List Value) → schema.encodeItems f (schema.keptItems f.type items) = schema.encodeItems f items
  | [] => rfl
  | item :: rest => by
    rw [keptItems, encodeItems, encodeItems, encodeField_keptValue schema f item,
      encodeItems_keptItems schema f rest]

/-- What `keptEntries` leaves of a map has the bytes of the map. -/
theorem encodeEntries_keptEntries (schema : Schema) (f : MessageField) (keyField : Option MessageField)
    (g : MessageField) : (entries : List (MapKey × Value)) →
      schema.encodeEntries f keyField (some g) (schema.keptEntries g entries) =
        schema.encodeEntries f keyField (some g) entries
  | [] => rfl
  | (key, value) :: rest => by
    have hvalue : schema.encodeField g (if g.omits value then value.unsigned
        else schema.keptValue g.type value) = schema.encodeField g value := by
      cases homits : g.omits value with
      | true =>
        have hunsigned : g.omits value.unsigned = true := by
          rw [← homits, MessageField.omits, MessageField.omits, isDefault_unsigned]
        rw [if_pos rfl, encodeField.eq_def, if_pos hunsigned, encodeField.eq_def, if_pos homits]
      | false => rw [if_neg Bool.false_ne_true, encodeField_keptValue schema g value]
    rw [keptEntries, encodeEntries.eq_def, encodeEntries.eq_def schema f keyField (some g) (_ :: _)]
    dsimp only
    rw [hvalue, encodeEntries_keptEntries schema f keyField g rest]

end

/-! ## The same levels -/

mutual

/-- What `kept` leaves of a message nests no deeper than the message. -/
theorem nesting_kept_le (schema : Schema) (type : MessageType) :
    (values : List (Nat × Value)) → FieldValues.nesting (schema.kept type values) ≤ FieldValues.nesting values
  | [] => Nat.le_refl _
  | (number, value) :: rest => by
    have hrest := nesting_kept_le schema type rest
    rw [kept, FieldValues.nesting]
    split
    · split
      · exact hrest.trans (le_max_right _ _)
      · rw [FieldValues.nesting]
        exact max_le_max (nesting_keptValue_le schema _ value) hrest
    · exact hrest.trans (le_max_right _ _)

/-- What `keptValue` leaves of a value nests no deeper than the value. -/
theorem nesting_keptValue_le (schema : Schema) (type : ValueType) :
    (value : Value) → (schema.keptValue type value).nesting ≤ value.nesting
  | .message fields => by
    rw [keptValue]
    split
    · rw [Value.nesting, Value.nesting]
      exact Nat.succ_le_succ (nesting_kept_le schema _ fields)
    · exact Nat.le_refl _
  | .list items => by
    rw [keptValue, Value.nesting, Value.nesting]
    exact nesting_keptItems_le schema type items
  | .map entries => by
    rw [keptValue]
    split
    · rw [Value.nesting, Value.nesting]
      exact nesting_keptEntries_le schema _ entries
    · exact Nat.le_refl _
  | .bool _ | .int _ | .float _ | .double _ | .string _ | .bytes _ => by
    rw [keptValue_scalar type rfl]

/-- What `keptItems` leaves of a list nests no deeper than the list. -/
theorem nesting_keptItems_le (schema : Schema) (type : ValueType) :
    (items : List Value) → Value.nestingOfItems (schema.keptItems type items) ≤ Value.nestingOfItems items
  | [] => Nat.le_refl _
  | item :: rest => by
    rw [keptItems, Value.nestingOfItems, Value.nestingOfItems]
    exact max_le_max (nesting_keptValue_le schema type item) (nesting_keptItems_le schema type rest)

/-- What `keptEntries` leaves of a map nests no deeper than the map. -/
theorem nesting_keptEntries_le (schema : Schema) (f : MessageField) :
    (entries : List (MapKey × Value)) →
      Value.nestingOfEntries (schema.keptEntries f entries) ≤ Value.nestingOfEntries entries
  | [] => Nat.le_refl _
  | (key, value) :: rest => by
    rw [keptEntries, Value.nestingOfEntries, Value.nestingOfEntries]
    refine max_le_max ?_ (nesting_keptEntries_le schema f rest)
    split
    · rw [nesting_unsigned]
    · exact nesting_keptValue_le schema f.type value

end

/-! ## What is read -/

/-- The numbers of the kept fields are among all numbers, in their order. -/
theorem keys_kept_sublist (type : MessageType) (values : FieldValues) :
    ((schema.kept type values).map Prod.fst).Sublist (values.map Prod.fst) := by
  induction values with
  | nil => exact .slnil
  | cons e rest ih =>
    obtain ⟨number, value⟩ := e
    rw [kept, List.map_cons]
    split
    · split
      · exact ih.cons _
      · exact ih.cons_cons _
    · exact ih.cons _

/-- Under the number of a field, `kept` leaves `keptValue` of what is there, unless the field omits it. -/
theorem get?_kept {values : FieldValues} (hn : (values.map Prod.fst).Nodup) (number : Nat) :
    FieldValues.get? (schema.kept type values) number =
      (FieldValues.get? values number).bind fun value => (type.field? number).bind fun f =>
        if f.omits value then none else some (schema.keptValue f.type value) := by
  simp only [FieldValues.get?_eq]
  induction values with
  | nil => rfl
  | cons e rest ih =>
    obtain ⟨own, value⟩ := e
    rw [List.map_cons, List.nodup_cons] at hn
    have hrest := ih hn.2
    rw [kept, Assoc.get?_cons]
    by_cases heq : own = number
    · subst heq
      have hnone : Assoc.get? (schema.kept type rest) own = none := by
        rw [Assoc.get?_eq_none_iff]
        exact fun hmem => hn.1 ((keys_kept_sublist type rest).subset hmem)
      rw [if_pos rfl, Option.bind_some]
      cases hf : type.field? own with
      | none => exact hnone
      | some f =>
        rw [Option.bind_some]
        dsimp only
        split
        · exact hnone
        · rw [Assoc.get?_cons, if_pos rfl]
    · rw [if_neg heq, ← hrest]
      split
      · split
        · rfl
        · rw [Assoc.get?_cons, if_neg heq]
      · rfl

variable {depth : Nat}

/-- Of each message that nests fewer than `depth` levels, `nestedReader depth` reads the bytes as what `kept`
leaves of it, both to their end and to the end of a group. -/
def ReadsNested (schema : Schema) (depth : Nat) : Prop :=
  ∀ target values, target.IsWired schema → target.Holds schema values →
    FieldValues.nesting values < depth → (schema.encode target values).length < 2 ^ 64 →
    schema.nestedReader depth target none [] (schema.encode target values) =
        some (schema.kept target values, []) ∧
      ∀ number, 0 < number → number < 2 ^ 29 → ∀ rest,
        schema.nestedReader depth target (some number) []
          (schema.encode target values ++ (WireKey.encode ⟨number, .endGroup⟩ ++ rest)) =
            some (schema.kept target values, rest)

/-- The bytes of a single value that its field does not omit are read as `keptValue` of it. -/
theorem Holds.itemWrites (hs : schema.IsWired) (hr : schema.ReadsNested depth) (hw : f.IsWired)
    {value : Value} (h : schema.Holds .single f.type value) (hd : value.nesting ≤ depth)
    (homits : f.omits value = false) (hlength : (schema.encodeField f value).length < 2 ^ 64) :
    ItemWrites schema (schema.nestedReader depth) f value (schema.keptValue f.type value) := by
  generalize ht : f.type = type at h
  cases h with
  | @scalar type kind value hk h =>
    have hchunk : schema.encodeField f value = f.key kind.wireType ++ kind.encode value := by
      rw [encodeField_scalar (ht ▸ hk) (Scalar.isScalar_of_holds h), homits, if_neg Bool.false_ne_true]
    rw [hchunk, List.length_append] at hlength
    rw [keptValue_scalar _ (Scalar.isScalar_of_holds h)]
    exact ⟨_, _, hchunk, writes_scalar (ht ▸ hk) h (by omega)⟩
  | @message name target values hm hsorted hfound halone hfields =>
    have hname : f.type.name = name := by rw [ht]; rfl
    have hchunk : schema.encodeField f (.message values) = f.encodeBody (schema.encode target values) := by
      rw [encodeField, homits, if_neg Bool.false_ne_true, hname, hm]
    have hkept : schema.keptValue (.message name) (.message values) =
        .message (schema.kept target values) := by
      rw [keptValue]
      simp only [ValueType.name, hm]
    rw [Value.nesting] at hd
    rw [hkept]
    rw [hchunk, MessageField.encodeBody] at hlength
    have hread := hr target values (hs name target hm) ⟨hsorted, hfound, halone, hfields⟩ hd
    cases hg : f.grouped with
    | true =>
      rw [hg, if_pos rfl, List.length_append, List.length_append] at hlength
      refine ⟨.startGroup, _, ?_, writes_group ht hm hg ((hread (by omega)).2 f.number hw.pos hw.lt)⟩
      rw [hchunk, MessageField.encodeBody, hg, if_pos rfl, List.append_assoc]
    | false =>
      have hbody := length_lt_lengthPrefixed (schema.encode target values)
      rw [hg, if_neg Bool.false_ne_true, List.length_append] at hlength
      refine ⟨.lengthDelimited, _, ?_, writes_message ht hm hg (hread (by omega)).1 (by omega)⟩
      rw [hchunk, MessageField.encodeBody, hg, if_neg Bool.false_ne_true]

/-- A list or map field omits no single value. -/
theorem Holds.omits_eq_false {shape : FieldShape} {type : ValueType} {value : Value}
    (h : schema.Holds .single type value) (hs : shape ≠ .single) (hf : f.default = shape.zero f.type) :
    f.omits value = false := by
  have hdefault : f.default.isDefault value = false := by
    rw [hf]
    cases h with
    | scalar hk h =>
      have := Scalar.isScalar_of_holds h
      cases shape <;> cases value <;> first | contradiction | rfl
    | message => cases shape <;> first | contradiction | rfl
  rw [MessageField.omits, hdefault, Bool.and_false]

/-- The bytes of a list that its field does not omit add `keptValue` of it. -/
theorem Holds.adds_list (hs : schema.IsWired) (hr : schema.ReadsNested depth) (hf : type.Declares f)
    (hw : f.IsWired) (hshape : f.shape = .list) {items : List Value}
    (h : ∀ item ∈ items, schema.Holds .single f.type item)
    (hd : ∀ item ∈ items, item.nesting ≤ depth) (homits : f.omits (.list items) = false)
    (hlength : (schema.encodeField f (.list items)).length < 2 ^ 64) :
    Adds schema (schema.nestedReader depth) depth type f (schema.encodeField f (.list items))
      (schema.keptValue f.type (.list items)) := by
  have hrepeated : f.shape ≠ .single := by rw [hshape]; exact nofun
  have hzero : f.default = FieldShape.list.zero f.type := hshape ▸ hw.zero hrepeated
  have hne : items ≠ [] := by
    rintro rfl
    rw [MessageField.omits, hw.presence hrepeated, hzero] at homits
    cases homits
  have hitem : ∀ item ∈ items, f.omits item = false := fun item hitem =>
    (h item hitem).omits_eq_false hrepeated (hw.zero hrepeated)
  rw [keptValue, keptItems_eq_map]
  have hchunk : schema.encodeField f (.list items) =
      if f.packed then f.encodePacked items else schema.encodeItems f items := by
    rw [encodeField, homits, if_neg Bool.false_ne_true]
  rw [hchunk] at hlength ⊢
  cases hp : f.packed with
  | true =>
    have hpackable := (hw.packed hp).2
    rw [hp, if_pos rfl] at hlength
    rw [if_pos rfl]
    obtain ⟨kind, hk⟩ := ValueType.exists_scalar?_of_isPackable hpackable
    have hholds : ∀ item ∈ items, kind.Holds item := fun item hmem => (h item hmem).of_scalar? hk
    have hkept : items.map (schema.keptValue f.type) = items := by
      rw [List.map_congr_left fun item hmem =>
        keptValue_scalar f.type (Scalar.isScalar_of_holds (hholds item hmem)), List.map_id']
    rw [hkept]
    exact adds_packed hf hshape hk hpackable (ValueType.isPackable_of_scalar? hk hpackable) hholds hlength
  | false =>
    rw [hp, if_neg Bool.false_ne_true] at hlength
    rw [if_neg Bool.false_ne_true]
    refine adds_items hf hshape ?_ hne
    rw [List.forall₂_map_right_iff, List.forall₂_same]
    intro item hmem
    have hle := @length_encodeField_le_encodeItems schema f _ _ hmem
    exact (h item hmem).itemWrites hs hr hw (hd item hmem) (hitem item hmem) (by omega)

/-- The bytes of a value in an entry of a map are read as `keptInEntry` of it. -/
theorem Holds.valueWrites (hs : schema.IsWired) (hr : schema.ReadsNested depth) (hw : f.IsWired)
    {value : Value} (h : schema.Holds .single f.type value) (hd : value.nesting ≤ depth)
    (hlength : (schema.encodeField f value).length < 2 ^ 64) :
    ValueWrites schema (schema.nestedReader depth) f value (schema.keptInEntry f value) := by
  rw [keptInEntry]
  cases homits : f.omits value with
  | true =>
    have hscalar : value.isScalar = true := by
      generalize f.type = type at h
      cases h with
      | scalar hk h => exact Scalar.isScalar_of_holds h
      | message =>
        rw [MessageField.omits_message] at homits
        cases homits
    refine .inl ⟨by rw [encodeField.eq_def, if_pos homits], ?_⟩
    rw [if_pos rfl, hw.omitted value hscalar homits]
  | false => exact .inr (h.itemWrites hs hr hw hd homits hlength)

/-- The bytes of a map that its field does not omit add `keptValue` of it. -/
theorem Holds.adds_map (hs : schema.IsWired) (hr : schema.ReadsNested depth) (hf : type.Declares f)
    (hw : f.IsWired) (hshape : f.shape = .map) {entries : List (MapKey × Value)}
    (h : schema.Holds .map f.type (.map entries)) (hd : ∀ e ∈ entries, e.2.nesting ≤ depth)
    (homits : f.omits (.map entries) = false)
    (hlength : (schema.encodeField f (.map entries)).length < 2 ^ 64) :
    Adds schema (schema.nestedReader depth) depth type f (schema.encodeField f (.map entries))
      (schema.keptValue f.type (.map entries)) := by
  have hrepeated : f.shape ≠ .single := by rw [hshape]; exact nofun
  have hzero : f.default = FieldShape.map.zero f.type := hshape ▸ hw.zero hrepeated
  have hne : entries ≠ [] := by
    rintro rfl
    rw [MessageField.omits, hw.presence hrepeated, hzero] at homits
    cases homits
  generalize ht : f.type = type' at h
  cases h with
  | @map name target kind keyField valueField entries hm he hn hkeys hvalues =>
    have hname : f.type.name = name := by rw [ht]; rfl
    have hchunk : schema.encodeField f (.map entries) =
        schema.encodeEntries f (some keyField) (some valueField) entries := by
      rw [encodeField, homits, if_neg Bool.false_ne_true, hname, hm]
      dsimp only
      rw [he.key, he.value]
    have hvalue := (hs name target hm).wired valueField (List.mem_of_find?_eq_some he.value)
    rw [hchunk] at hlength ⊢
    rw [keptValue_map hm he]
    refine adds_entries hf hshape (hname ▸ hm) he (he.startsEmpty (hs name target hm)) ?_ hn hne hlength
    rw [List.forall₂_map_right_iff, List.forall₂_same]
    intro e hmem
    have hle := @length_encodeField_le_encodeEntries schema f keyField valueField _ _ hmem
    exact ⟨rfl, hkeys e hmem, (hvalues e hmem).valueWrites hs hr hvalue (hd e hmem) (by omega)⟩

/-- The bytes of a value that its field does not omit add `keptValue` of it. -/
theorem Holds.adds (hs : schema.IsWired) (hr : schema.ReadsNested depth) (hw : type.IsWired schema)
    {number : Nat} (hf : type.field? number = some f) {value : Value}
    (h : schema.Holds f.shape f.type value) (hd : value.nesting ≤ depth)
    (homits : f.omits value = false) (hlength : (schema.encodeField f value).length < 2 ^ 64) :
    Adds schema (schema.nestedReader depth) depth type f (schema.encodeField f value)
      (schema.keptValue f.type value) := by
  have hfield := hw.wired f (List.mem_of_find?_eq_some hf)
  cases hshape : f.shape with
  | single =>
    rw [hshape] at h
    obtain ⟨wire, body, hchunk, hwrites⟩ := h.itemWrites hs hr hfield hd homits hlength
    rw [hchunk]
    exact adds_single (hw.finds hf).1 hshape hwrites
  | list =>
    rw [hshape] at h
    have hdeclares := hw.declares hf (by rw [hshape]; simp)
    cases h with
    | list h =>
      rw [Value.nesting, Value.nestingOfItems_le_iff] at hd
      exact adds_list hs hr hdeclares hfield hshape h hd homits hlength
  | map =>
    rw [hshape] at h
    have hdeclares := hw.declares hf (by rw [hshape]; simp)
    obtain ⟨entries, rfl⟩ : ∃ entries, value = .map entries := by
      generalize f.type = type at h
      cases h
      exact ⟨_, rfl⟩
    rw [Value.nesting, Value.nestingOfEntries_le_iff] at hd
    exact adds_map hs hr hdeclares hfield hshape h hd homits hlength

/-- What has been read for an entry of a message is `keptValue` of its value, or nothing if its field omits
it. -/
def IsKept (schema : Schema) (type : MessageType) (e : Nat × Value) (read : Option Value) : Prop :=
  read = (type.field? e.1).bind fun f => if f.omits e.2 then none else some (schema.keptValue f.type e.2)

/-- The bytes of a message that nests at most `depth` levels are read as what `kept` leaves of it, whatever
stands behind. -/
theorem ReadsNested.fieldsRead (hr : schema.ReadsNested depth) (hs : schema.IsWired)
    (hw : type.IsWired schema) {values : FieldValues} (h : type.Holds schema values)
    (hd : FieldValues.nesting values ≤ depth) (hlength : (schema.encode type values).length < 2 ^ 64)
    (tail : Bytes) :
    FieldsRead (schema.readField (schema.nestedReader depth) depth type) tail []
      (schema.encode type values ++ tail) (schema.kept type values) := by
  have hadds : ∀ e ∈ values, ∃ f, EntryAdds schema (schema.nestedReader depth) depth type
      (IsKept schema type) (values.map Prod.fst) e f := by
    intro e he
    obtain ⟨f, hf⟩ := Option.isSome_iff_exists.mp (h.found e he)
    refine ⟨f, hf, (hw.finds hf).2, h.alone e he f hf, ?_⟩
    simp only [IsKept, hf, Option.bind_some]
    cases homits : f.omits e.2 with
    | true =>
      refine .inl ⟨?_, rfl⟩
      rw [encodeField.eq_def, if_pos homits]
    | false =>
      have hle := @length_encodeField_le schema type f values e he hf
      exact .inr ⟨_, (h.fields e he f hf).adds hs hr hw hf (FieldValues.nesting_le_iff.mp hd e he) homits
        (by omega), rfl⟩
  obtain ⟨result, hread, hsorted, hshown, hrest⟩ :=
    exists_fieldsRead h.sorted.nodup hadds (show Assoc.IsSorted [] from .nil) fun _ _ _ _ _ _ _ => rfl
  -- Under every number stands what is kept under it.
  have hkept : result = schema.kept type values := by
    refine hsorted.ext (h.sorted.sublist (keys_kept_sublist type values)) fun number => ?_
    rw [← FieldValues.get?_eq, ← FieldValues.get?_eq, get?_kept h.sorted.nodup]
    cases hget : FieldValues.get? values number with
    | some value =>
      rw [Option.bind_some]
      exact hshown (number, value) (FieldValues.mem_of_get?_eq_some hget)
    | none =>
      rw [FieldValues.get?_eq, Assoc.get?_eq_none_iff] at hget
      exact hrest number hget
  exact hkept ▸ hread tail

/-- A wired schema reads nested messages at each depth. -/
theorem IsWired.readsNested (hs : schema.IsWired) (depth : Nat) : schema.ReadsNested depth := by
  induction depth with
  | zero => exact fun _ _ _ _ hd => absurd hd (Nat.not_lt_zero _)
  | succ depth ih =>
    intro target values hw h hd hlength
    have hread := ih.fieldsRead hs hw h (Nat.le_of_lt_succ hd) hlength
    refine ⟨?_, fun number hpos hlt rest => ?_⟩
    · rw [nestedReader, readMessage_eq, readFields_eq_of_forall hread (Nat.le_refl _)]
    · rw [nestedReader, readMessage_eq]
      exact (hread _).readFields_group hpos hlt (Nat.le_refl _)

/-- From the bytes of a message that nests at most `depth` levels, `readMessage depth` reads what `kept` leaves
of it. -/
theorem IsWired.readMessage_encode (hs : schema.IsWired) (hw : type.IsWired schema) {values : FieldValues}
    (h : type.Holds schema values) (hd : FieldValues.nesting values ≤ depth)
    (hlength : (schema.encode type values).length < 2 ^ 64) :
    schema.readMessage depth type none [] (schema.encode type values) =
      some (schema.kept type values, []) := by
  rw [readMessage_eq]
  exact readFields_eq_of_forall ((hs.readsNested depth).fieldsRead hs hw h hd hlength) (Nat.le_refl _)

/-- From the bytes of a message that nests at most `maxNesting` levels, `decode?` reads what `kept` leaves of
it. -/
theorem IsWired.decode?_encode (hs : schema.IsWired) (hw : type.IsWired schema) {values : FieldValues}
    (h : type.Holds schema values) (hd : FieldValues.nesting values ≤ maxNesting)
    (hlength : (schema.encode type values).length < 2 ^ 64) :
    schema.decode? type (schema.encode type values) = some (schema.kept type values) := by
  rw [decode?, hs.readMessage_encode hw h hd hlength, Option.map_some]

end Schema

end Tagwire
