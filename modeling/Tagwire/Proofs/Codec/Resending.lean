import Tagwire.Proofs.Codec.Fresh
import Tagwire.Proofs.Mapping.Faithful

/-!
# Sending a decoded record once more

A record that has been decoded conforms to its type, if what its messages show can be told from them: it is
encoded strictly, and decoded from these bytes as a record that is the same, up to the sign of zeros.
-/

set_option autoImplicit false

namespace Tagwire

open Schema

/-- The members of a record still come back (`MembersComeBack`) once `withType` has set its type. -/
theorem RegisteredType.IsLoaded.membersComeBack_withType {type : RegisteredType} {schema : Schema}
    (ht : type.IsLoaded schema) {g : Binary64 → Binary64} {levels : Nat} {record : Record}
    (h : schema.MembersComeBack g levels type.linked record.members) :
    schema.MembersComeBack g levels type.linked (record.withType type.name).members := by
  have htag := ht.typeTag_mem
  have hget : ∀ key, Entries.get? (record.withType type.name).members key =
      if typeField = key then some (.str type.name) else Entries.get? record.members key :=
    fun key => record.get?_withType type.name key
  refine ⟨(record.withType type.name).sorted, fun m hm => ?_, fun f hf hpresence => ?_,
    fun f hf json hjson hsmall => ?_⟩
  · have hfound := Entries.get?_eq_some_of_mem (record.withType type.name).sorted hm
    rw [hget] at hfound
    split at hfound
    · rename_i hkey
      exact ⟨_, List.mem_map_of_mem htag, (ht.jsonName_linked htag).trans hkey⟩
    · exact h.declared (m.1, m.2) (Entries.mem_of_get?_eq_some hfound)
  · rw [hget]
    split
    · rfl
    · exact h.present f hf hpresence
  · rw [hget] at hjson
    split at hjson
    · rename_i hkey
      -- The only field under the key of the type is that of the type.
      obtain rfl := List.inj_on_of_nodup_map ht.isLinked_linked.keys hf (List.mem_map_of_mem htag)
        (hkey.symm.trans (ht.jsonName_linked htag).symm)
      cases hjson
      rw [RegisteredField.linked_typeTag]
      have htext : Scalar.string.Holds (.string type.name) := ⟨_, rfl⟩
      exact comesBack_scalar htext hsmall
    · exact h.back f hf json hjson hsmall

namespace Schema

variable {schema : Schema} {type : RegisteredType} {values : FieldValues} {record : Record}

/-- The record that `fromMessage` gives for a faithful message of a loaded type comes back with the type that
`withType` sets. -/
theorem IsCompiled.comesBack_record (hs : schema.IsCompiled) (ht : type.IsLoaded schema)
    (hholds : type.linked.Holds schema values)
    (hfaithful : schema.IsFaithful (maxNesting + 1) (.message type.linked.name) (.message values))
    (hrecord : schema.fromMessage type.linked values = .ok record)
    (hsize : (record.withType type.name).toJson.size < 2 ^ 56) :
    schema.ComesBack Binary64.numeric (maxNesting + 1) .single (.message type.linked.name)
      (record.withType type.name).toJson := by
  have hm : schema.message? type.linked.name = some type.linked := ht.linked
  have hw := hs.types _ _ hm
  have hplain := hs.ordinary hm ht.ofTypeName?_eq_none
  have hjson : schema.valueToJson? schema.unpackAny? (.message type.linked.name) (.message values) =
      some record.toJson := fromMessage_eq_ok_iff.mp hrecord
  obtain ⟨members, heq, hmembers⟩ := ht.isOrdinary.comesBack
    Binary64.numeric maxNesting hs.toIsPlain hplain hholds hjson fun e he f hf json hsmall hvalue =>
      (hfaithful.of_message ht.isOrdinary e he f hf).comesBack hs Binary64.numeric_neg_zero (Nat.le_succ _)
        (hholds.fields e he f hf) (hw.admits (List.mem_of_find?_eq_some hf)) hvalue hsmall
  obtain rfl : record.members = members := Json.obj.inj heq
  exact ht.isOrdinary.comesBack_obj hs.toIsTyped hw (hs.plain _ _ hm) (fun f hf => (hplain f hf).2)
    (ht.membersComeBack_withType hmembers) hsize

/-- The bytes of a message that a record is read back as are decoded as a record that is the same, if the floats
are compared as numbers. -/
theorem IsCompiled.exists_decodeRecord_encode (hs : schema.IsCompiled) (ht : type.IsLoaded schema)
    (hread : schema.ReadsBack Binary64.numeric (maxNesting + 1) .single (.message type.linked.name)
      record.toJson (.message values)) (hsize : record.toJson.size < 2 ^ 56) :
    ∃ result : Record, schema.decodeRecord type.linked (schema.encode type.linked values) = .ok result ∧
      result.toJson.IsNumericallySame record.toJson := by
  have hm : schema.message? type.linked.name = some type.linked := ht.linked
  have hw := hs.types _ _ hm
  have hvalue := holds_of_valueOfJson? hs.toIsTyped _ (admits_message hm) hread.reads
  have hlength : (schema.encode type.linked values).length < 2 ^ 64 := by
    have := hread.length_encode_le hm
    omega
  have hdepth : FieldValues.nesting values ≤ maxNesting := Nat.le_of_succ_le_succ hread.nesting
  have hdecode := hs.types.decode?_encode hw (hvalue.of_message hm).2 hdepth hlength
  have hkept := (hs.types.holdsFields_of_decode? hw hdecode).1
  -- What is left out of the bytes is shown as before.
  have hsame := hvalue.map_valueToJson?_keptValue hs.toIsPlain schema.unpackAny? (by intro h; cases h)
    (.inl Binary64.numeric_neg_zero)
  rw [hread.shows, keptValue_message hm] at hsame
  obtain ⟨json, hjson, hnumeric⟩ := Option.map_eq_some_iff.mp hsame
  obtain ⟨members, rfl, hsorted, -⟩ := ht.isOrdinary.exists_members hkept.sorted hkept.found hjson
  exact ⟨⟨members, hsorted⟩, decodeRecord_eq_ok_iff.mpr ⟨_, hdecode, fromMessage_eq_ok_iff.mpr hjson⟩,
    hnumeric⟩

end Schema

/-- Records that are the same, if floats are compared as numbers, have the same members in this sense. -/
theorem Record.map_get?_of_isNumericallySame {record other : Record}
    (h : record.toJson.IsNumericallySame other.toJson) (key : String) :
    (record.get? key).map (Json.mapFloats Binary64.numeric) =
      (other.get? key).map (Json.mapFloats Binary64.numeric) := by
  unfold Json.IsNumericallySame Record.toJson at h
  rw [Json.mapFloats, Json.mapFloats, Json.obj.injEq, Json.mapFloatsOfMembers_eq,
    Json.mapFloatsOfMembers_eq] at h
  have hfound := congrArg (Assoc.get? · key) h
  rw [Record.get?, Record.get?, Entries.get?_eq, Entries.get?_eq]
  rwa [Assoc.get?_map, Assoc.get?_map] at hfound

/-- They have the same texts. -/
theorem Record.get?_of_isNumericallySame {record other : Record}
    (h : record.toJson.IsNumericallySame other.toJson) {key text : String}
    (hget : other.get? key = some (.str text)) : record.get? key = some (.str text) := by
  have hfound := Record.map_get?_of_isNumericallySame h key
  rw [hget] at hfound
  obtain ⟨json, hjson, heq⟩ := Option.map_eq_some_iff.mp hfound
  rw [hjson]
  cases json <;> first | (cases heq; done) | exact congrArg some heq

namespace Codec

variable {codec : Codec} {record : Record} {name : String} {bytes : Bytes}

/-- A record that `decodeAs` reads from any bytes is encoded with verification, and `decodeAs` reads from the
new bytes the same record up to the sign of zeros, if the message in the first bytes can be told from the JSON
that shows it (`Schema.IsFaithful`).  The record is smaller than `2 ^ 56`, so that all its lengths fit 64
bits. -/
theorem decodeAs_encodeWith_of_isFaithful {definitions : List RecordDefinition} {compiled : CompiledSchema}
    (h : compile definitions = .ok compiled)
    (hload : SchemaStore.loadText {} compiled.document.text = .ok codec.store)
    (hlisted : name ∈ compiled.registry.names) (hdecode : codec.decodeAs bytes name = .ok record)
    (hsize : record.toJson.size < 2 ^ 56)
    (hfaithful : ∀ schema type values, codec.store.find name = .ok (schema, type) →
      schema.decode? type bytes = some values →
      schema.IsFaithful (maxNesting + 1) (.message type.name) (.message values)) :
    ∃ again result, codec.encodeWith { verify := true, predictive := false } record = .ok again ∧
      codec.decodeAs again name = .ok result ∧ result.toJson.IsNumericallySame record.toJson := by
  obtain ⟨schema, hstore, hl⟩ := CompiledSchema.exists_isLoaded_of_loadText h hload
  have hs : schema.IsCompiled := CompiledSchema.isCompiled_of_loadText h (hstore ▸ hload)
  obtain ⟨type, -, rfl, ht⟩ := hl.types name hlisted
  have hm : schema.message? type.linked.name = some type.linked := ht.linked
  have hw := hs.types _ _ hm
  rw [decodeAs_eq hstore ht] at hdecode
  obtain ⟨shown, hshown, rfl⟩ := map_eq_ok_iff.mp hdecode
  obtain ⟨values, hvalues, hshown⟩ := decodeRecord_eq_ok_iff.mp hshown
  obtain ⟨value, hread⟩ := hs.comesBack_record ht (hs.types.holdsFields_of_decode? hw hvalues).1
    (hfaithful schema type.linked values (find_eq_ok hstore ht) hvalues) hshown hsize
  obtain ⟨again, rfl, -⟩ := exists_message_of_valueOfJson? hs.toIsTyped hm hread.reads
  have hname : (shown.withType type.name).typeName? = some type.name :=
    shown.typeName?_withType ht.name_ne_empty
  have hencode : codec.encodeWith { verify := true, predictive := false } (shown.withType type.name) =
      .ok (schema.encode type.linked again) := by
    rw [encodeWith_eq hstore ht hname, if_neg Bool.false_ne_true]
    exact encodeRecord_eq_ok_iff.mpr ⟨again, Schema.toMessage_eq_ok_iff.mpr hread.reads, rfl⟩
  obtain ⟨result, hresult, hsame⟩ := hs.exists_decodeRecord_encode ht hread hsize
  have htype : result.get? typeField = some (.str type.name) :=
    Record.get?_of_isNumericallySame hsame (by rw [Record.get?_withType, if_pos rfl])
  refine ⟨_, result, hencode, ?_, hsame⟩
  rw [decodeAs_eq hstore ht, hresult]
  show Except.ok (result.withType type.name) = _
  rw [Record.withType_eq htype]

end Codec

/-- The definitions of a message with a number that may be missing. -/
def gaugeDefinitions : List RecordDefinition :=
  [{ id := "X", fields := [("size", { kind := .wellKnown .doubleValue })] }]

/-- The number as a field of the message. -/
def gaugeField : RegisteredField := ⟨"size", "size", 2, WellKnown.doubleValue.typeName, false⟩

/-- The message type of the number. -/
def numberType : MessageType :=
  ⟨WellKnown.doubleValue.typeName, (SpecialForm.wrapper .double).fields⟩

/-- The message with a number, and without its type. -/
def gaugeValues (x : Binary64) : FieldValues := [(2, .message [(1, .double x)])]

/-- The bytes of the message. -/
def gaugeBytes (x : Binary64) : Bytes := [18, 9, 9] ++ Bytes.littleEndian x.bits.toNat 8

/-- The record that the message is decoded as. -/
def gaugeRecord (x : Binary64) : Record :=
  ⟨[("size", SpecialForm.wrappedJson (.double x)), (typeField, .str "XMessage")],
    List.pairwise_pair.mpr (show "size" < typeField by decide)⟩

/-- A schema has the type of the message and that of its number. -/
structure IsGauge (schema : Schema) (type : RegisteredType) : Prop extends type.IsLoaded schema where
  compiled : schema.IsCompiled
  name_eq : type.name = "XMessage"
  fields_eq : type.fields = [.typeTag, gaugeField]
  number : schema.message? WellKnown.doubleValue.typeName = some numberType

/-- The number is a message of the well-known type. -/
theorem linked_gaugeField : gaugeField.linked =
    { name := "size", jsonName := "size", number := 2, type := .message WellKnown.doubleValue.typeName,
      presence := true, default := .message [] } :=
  RegisteredField.linked_eq (by decide) (linkedType_typeName .doubleValue)

/-- There is a codec for `gaugeDefinitions`, whose schema has the types of the message and of its
`DoubleValue`. -/
theorem exists_gaugeCodec : ∃ compiled, ∃ codec : Codec, ∃ schema type,
    compile gaugeDefinitions = .ok compiled ∧
      SchemaStore.loadText {} compiled.document.text = .ok codec.store ∧ codec.store = ⟨some schema⟩ ∧
      "XMessage" ∈ compiled.registry.names ∧ IsGauge schema type := by
  have hcompiles : CompilesLinkable gaugeDefinitions := by decide
  obtain ⟨compiled, codec, schema, h, hload, -, hstore, hl⟩ := hcompiles.exists_codec .builtIn
  have htype : ((compile gaugeDefinitions).toOption.bind fun c =>
      (c.registry.get? "XMessage").map RegisteredType.fields) = some [.typeTag, gaugeField] := by
    decide
  rw [h, Except.toOption, Option.bind_some, Option.map_eq_some_iff] at htype
  obtain ⟨type, hfound, hfields⟩ := htype
  obtain ⟨hname, ht⟩ := hl.of_get? hfound
  have hs : schema.IsCompiled := CompiledSchema.isCompiled_of_loadText h (hstore ▸ hload)
  have hmem : gaugeField ∈ type.fields :=
    hfields ▸ List.mem_cons_of_mem _ (List.mem_singleton_self _)
  obtain ⟨number, hm, -⟩ : schema.Admits .single (.message WellKnown.doubleValue.typeName) := by
    have hadmits := (hs.types _ _ ht.linked).admits (List.mem_map_of_mem hmem)
    rwa [linked_gaugeField] at hadmits
  obtain ⟨m, hbundled, hnumber, rfl⟩ :=
    hs.exists_of_form hm (show _ = some (SpecialForm.wrapper .double) by decide)
  have hlinked : m.linked = numberType := by
    have hone : (Bundled.messages.filter fun m => decide (m.name = WellKnown.doubleValue.typeName)).map
        MessageDeclaration.linked = [numberType] := rfl
    have hmem : m ∈ Bundled.messages.filter fun m => decide (m.name = WellKnown.doubleValue.typeName) :=
      List.mem_filter.mpr ⟨hbundled, decide_eq_true hnumber⟩
    exact List.mem_singleton.mp (hone ▸ List.mem_map_of_mem hmem)
  exact ⟨compiled, codec, schema, type, h, hload, hstore, Registry.mem_names_of_get? hfound,
    ht, hs, hname, hfields, hlinked ▸ hm⟩

namespace IsGauge

variable {schema : Schema} {type : RegisteredType} {x : Binary64}

/-- A gauge has `gaugeField` among its fields. -/
theorem gaugeField_mem (h : IsGauge schema type) : gaugeField ∈ type.fields :=
  h.fields_eq ▸ List.mem_cons_of_mem _ (List.mem_singleton_self _)

/-- Number 2 is that of `gaugeField`. -/
theorem field?_two (h : IsGauge schema type) : type.linked.field? 2 = some gaugeField.linked :=
  h.toIsLoaded.field?_linked h.gaugeField_mem

/-- The type of `gaugeField` has a JSON form of its own: that of a number in a wrapper. -/
theorem form : SpecialForm.ofTypeName? numberType.name = some (.wrapper .double) := by decide

/-- A `DoubleValue` that is not zero is written as its key and eight bytes, by whatever name its type goes. -/
theorem encode_number (hx : x.isZero = false) (name : String) :
    schema.encode ⟨name, (SpecialForm.wrapper .double).fields⟩ [(1, .double x)] =
      9 :: Bytes.littleEndian x.bits.toNat 8 := by
  have homits : (SpecialForm.scalarField "value" 1 .double).omits (.double x) = false := hx
  rw [encode_singleton (f := SpecialForm.scalarField "value" 1 .double) rfl,
    encodeField_scalar (show _ = some Scalar.double from rfl) rfl, homits, if_neg Bool.false_ne_true]
  show Varint.encode 9 ++ _ = _
  rw [Varint.encode, if_pos (by decide)]
  rfl

/-- Encoding keeps a `DoubleValue` that is not zero. -/
theorem kept_number (hx : x.isZero = false) (name : String) :
    schema.kept ⟨name, (SpecialForm.wrapper .double).fields⟩ [(1, .double x)] = [(1, .double x)] := by
  have hfield : MessageType.field? ⟨name, (SpecialForm.wrapper .double).fields⟩ 1 =
      some (SpecialForm.scalarField "value" 1 .double) := rfl
  have homits : (SpecialForm.scalarField "value" 1 .double).omits (.double x) = false := hx
  rw [kept, hfield]
  dsimp only
  rw [homits, if_neg Bool.false_ne_true, keptValue_scalar _ rfl, kept]

/-- `gaugeValues x` is a message of the type of a gauge. -/
theorem holds (h : IsGauge schema type) (x : Binary64) : type.linked.Holds schema (gaugeValues x) := by
  refine MessageType.holds_singleton h.field?_two ?_
  rw [linked_gaugeField]
  refine holds_message_iff.mpr ⟨numberType, [(1, .double x)], h.number, rfl, ?_⟩
  exact MessageType.holds_singleton (f := SpecialForm.scalarField "value" 1 .double) rfl (.scalar rfl ⟨x, rfl⟩)

/-- `decode?` reads `gaugeBytes x` as `gaugeValues x`. -/
theorem decode?_gaugeBytes (h : IsGauge schema type) (hx : x.isZero = false) :
    schema.decode? type.linked (gaugeBytes x) = some (gaugeValues x) := by
  have homits : gaugeField.linked.omits (.message [(1, .double x)]) = false := by
    rw [linked_gaugeField]
    rfl
  have hlength : (Bytes.littleEndian x.bits.toNat 8).length = 8 := Bytes.length_littleEndian _ _
  have hencode : schema.encode type.linked (gaugeValues x) = gaugeBytes x := by
    rw [gaugeValues, encode_singleton h.field?_two, encodeField_message numberType homits
      (by rw [linked_gaugeField]; exact h.number), numberType, encode_number hx, linked_gaugeField]
    show Varint.encode 18 ++ (Varint.encode (9 :: Bytes.littleEndian x.bits.toNat 8).length ++ _) = _
    rw [List.length_cons, hlength, Varint.encode, if_pos (by decide), Varint.encode, if_pos (by decide)]
    rfl
  have hkept : schema.kept type.linked (gaugeValues x) = gaugeValues x := by
    rw [gaugeValues, kept, h.field?_two]
    dsimp only
    rw [homits, if_neg Bool.false_ne_true, linked_gaugeField, keptValue]
    simp only [ValueType.name, h.number]
    rw [numberType, kept_number hx, kept]
  have hshort : (schema.encode type.linked (gaugeValues x)).length < 2 ^ 64 := by
    rw [hencode, gaugeBytes, List.length_append, hlength]
    decide
  have hdecode := h.compiled.types.decode?_encode (h.compiled.types _ _ h.linked) (h.holds x)
    (Nat.le_of_ble_eq_true rfl) hshort
  rw [hkept, hencode] at hdecode
  exact hdecode

/-- `load?` brings a `DoubleValue` that is not zero into the layout of its form. -/
theorem load?_number (hx : x.isZero = false) :
    (SpecialForm.wrapper .double).load? schema numberType [(1, .double x)] = some [(1, .double x)] := by
  have hlength : (Bytes.littleEndian x.bits.toNat 8).length = 8 := Bytes.length_littleEndian _ _
  have hholds : (SpecialForm.wrapper .double).layout.Holds SpecialForm.layouts [(1, .double x)] :=
    MessageType.holds_singleton (f := SpecialForm.scalarField "value" 1 .double) rfl (.scalar rfl ⟨x, rfl⟩)
  have hencode : SpecialForm.layouts.encode (SpecialForm.wrapper .double).layout [(1, .double x)] =
      9 :: Bytes.littleEndian x.bits.toNat 8 := encode_number hx ""
  have hdecode := SpecialForm.isWired_layouts.decode?_encode (SpecialForm.isWired_layout _) hholds
    (Nat.le_of_ble_eq_true rfl) (by rw [hencode, List.length_cons, hlength]; decide)
  rw [hencode, SpecialForm.layout, kept_number hx] at hdecode
  rw [SpecialForm.load?, numberType, encode_number hx]
  exact hdecode

/-- `decodeAs` reads `gaugeBytes x` as the record with what `wrappedJson` shows of `x` under `size`. -/
theorem decodeAs_gaugeBytes (h : IsGauge schema type) {codec : Codec} (hstore : codec.store = ⟨some schema⟩)
    (hx : x.isZero = false) : codec.decodeAs (gaugeBytes x) "XMessage" = .ok (gaugeRecord x) := by
  have hnumber : schema.valueToJson? schema.unpackAny? gaugeField.linked.type (.message [(1, .double x)]) =
      some (SpecialForm.wrappedJson (.double x)) := by
    rw [linked_gaugeField, valueToJson?]
    simp only [ValueType.name, h.number, form, specialToJson?, load?_number hx, Option.bind_eq_bind,
      Option.bind_some]
    rfl
  have hunset : schema.unsetMembers type.linked (gaugeValues x) = [(typeField, .str "")] := by
    rw [unsetMembers, RegisteredType.linked, h.fields_eq, List.map_cons, List.map_cons, List.map_nil,
      RegisteredField.linked_typeTag, linked_gaugeField]
    rfl
  have hmembers : schema.fieldsToJson? schema.unpackAny? type.linked (gaugeValues x) =
      some [("size", SpecialForm.wrappedJson (.double x))] := by
    rw [gaugeValues, fieldsToJson?, h.field?_two]
    dsimp only
    rw [hnumber, fieldsToJson?, linked_gaugeField]
    rfl
  have hjson : schema.messageToJson? type.linked (gaugeValues x) = some (.ofMembers
      [(typeField, .str ""), ("size", SpecialForm.wrappedJson (.double x))]) := by
    rw [messageToJson?, h.isOrdinary.valueToJson?_message, hmembers, hunset]
    rfl
  rw [← h.name_eq, Codec.decodeAs_eq hstore h.toIsLoaded, decodeRecord, h.decode?_gaugeBytes hx]
  dsimp only
  rw [fromMessage, hjson, h.name_eq]
  have hsize : "size" < typeField := by decide
  have hnot : ¬ typeField < "size" := by decide
  have hne : typeField ≠ "size" := by decide
  refine congrArg Except.ok (Record.ext_members ?_)
  simp [SortedEntries.ofList, SortedEntries.insertAll, SortedEntries.empty, SortedEntries.insert,
    Entries.ofList, Entries.insertAll, Entries.insert, Record.withType, Record.insert, gaugeRecord, hsize, hnot,
    hne]

/-- `toMessage` takes null under `size` for a field that is not set. -/
theorem toMessage_null (h : IsGauge schema type) (strict : Bool) :
    schema.toMessage type.linked strict
        ⟨[("size", .null), (typeField, .str "XMessage")], by decide⟩ =
      schema.toMessage type.linked strict (.ofType "XMessage") := by
  have hmember : type.linked.member? "size" = some gaugeField.linked :=
    h.member?_linked h.gaugeField_mem
  have hnull : schema.ofNull gaugeField.linked = some none := by
    have hother : ¬ (WellKnown.doubleValue.typeName = WellKnown.value.typeName ∧
        FieldShape.single = FieldShape.single) := by decide
    rw [linked_gaugeField, ofNull]
    exact if_neg hother
  have hskip : ∀ rest, schema.fieldsOfJson? strict type.linked false [] (("size", .null) :: rest) =
      schema.fieldsOfJson? strict type.linked false [] rest := by
    intro rest
    rw [fieldsOfJson?_cons_eq_bind, setMember?_of_oneof hmember (RegisteredField.oneof_linked _), ofMember, hnull]
    rfl
  have hvalue : ∀ record : Record, schema.valueOfJson? strict .single (.message type.linked.name)
      record.toJson = (schema.fieldsOfJson? strict type.linked false [] record.members).map .message :=
    fun record => h.valueOfJson?_obj record.members
  have hbare : (Record.ofType "XMessage").members = [(typeField, .str "XMessage")] := rfl
  rw [toMessage, toMessage, messageOfJson?, messageOfJson?, hvalue, hvalue, hbare, Record.members_mk, hskip]

/-- A message with a finite `DoubleValue` that is not zero can be told from its JSON form. -/
theorem isFaithful (h : IsGauge schema type) (hx : x.isZero = false) (hfinite : x.isFinite = true) :
    schema.IsFaithful (maxNesting + 1) (.message type.linked.name) (.message (gaugeValues x)) := by
  refine .message h.ofTypeName?_eq_none (fun e he f hf => ?_) h.linked
  cases List.mem_singleton.mp he
  rw [h.field?_two, Option.some.injEq] at hf
  rw [← hf, linked_gaugeField]
  refine @IsFaithful.special schema _ numberType _ _ form (by decide) (fun laidOut hload => ?_) h.number
  rw [load?_number hx, Option.some.injEq] at hload
  exact hload ▸ hfinite

end IsGauge

namespace Codec

/-- A gauge whose `DoubleValue` is 1.5 is decoded, encoded once more and decoded as the same record. -/
theorem decodeAs_encodeWith_finite_gauge : ∃ compiled, ∃ codec : Codec, ∃ again result,
    compile gaugeDefinitions = .ok compiled ∧
      SchemaStore.loadText {} compiled.document.text = .ok codec.store ∧
      codec.decodeAs [18, 9, 9, 0, 0, 0, 0, 0, 0, 0xF8, 0x3F] "XMessage" =
        .ok ⟨[("size", .float ⟨0x3FF8000000000000⟩), ("type", .str "XMessage")], by decide⟩ ∧
      codec.encodeWith { verify := true, predictive := false }
        ⟨[("size", .float ⟨0x3FF8000000000000⟩), ("type", .str "XMessage")], by decide⟩ = .ok again ∧
      codec.decodeAs again "XMessage" = .ok result ∧
      result.toJson.IsNumericallySame
        (.obj [("size", .float ⟨0x3FF8000000000000⟩), ("type", .str "XMessage")]) := by
  obtain ⟨compiled, codec, schema, type, h, hload, hstore, hlisted, hgauge⟩ := exists_gaugeCodec
  have hdecode : codec.decodeAs (gaugeBytes ⟨0x3FF8000000000000⟩) "XMessage" =
      .ok (gaugeRecord ⟨0x3FF8000000000000⟩) := hgauge.decodeAs_gaugeBytes hstore (by decide)
  obtain ⟨again, result, hencode, hagain, hsame⟩ := decodeAs_encodeWith_of_isFaithful h hload hlisted hdecode
    (by decide) fun found message values hfind hvalues => by
      rw [← hgauge.name_eq, find_eq_ok hstore hgauge.toIsLoaded, Except.ok.injEq, Prod.mk.injEq] at hfind
      obtain ⟨rfl, rfl⟩ := hfind
      rw [hgauge.decode?_gaugeBytes (by decide), Option.some.injEq] at hvalues
      exact hvalues ▸ hgauge.isFaithful (by decide) (by decide)
  exact ⟨compiled, codec, again, result, h, hload, hdecode, hencode, hagain, hsame⟩

/-- A gauge whose `DoubleValue` is NaN is decoded with the member `size: null`; `encodeWith` takes null for a
field that is not set, so that `decodeAs` of the new bytes has no member `size`. -/
theorem decodeAs_encodeWith_nan_gauge : ∃ compiled, ∃ codec : Codec, ∃ record again result,
    compile gaugeDefinitions = .ok compiled ∧
      SchemaStore.loadText {} compiled.document.text = .ok codec.store ∧
      codec.decodeAs [18, 9, 9, 0, 0, 0, 0, 0, 0, 0xF8, 0x7F] "XMessage" = .ok record ∧
      record = ⟨[("size", .null), ("type", .str "XMessage")], by decide⟩ ∧
      codec.encodeWith { verify := true, predictive := false } record = .ok again ∧
      codec.decodeAs again "XMessage" = .ok result ∧ result.get? "size" = none ∧
      ¬ result.toJson.IsNumericallySame record.toJson := by
  obtain ⟨compiled, codec, schema, type, h, hload, hstore, -, hgauge⟩ := exists_gaugeCodec
  have hdecode : codec.decodeAs (gaugeBytes ⟨0x7FF8000000000000⟩) "XMessage" =
      .ok (gaugeRecord ⟨0x7FF8000000000000⟩) := hgauge.decodeAs_gaugeBytes hstore (by decide)
  obtain ⟨again, result, hencode, hagain, -, hshown⟩ :=
    exists_decodeAs_ofType hgauge.compiled.toIsPlain hstore hgauge.toIsLoaded true
  have hunset : result.get? "size" = none := by
    rw [show result.get? "size" = _ from hshown gaugeField hgauge.gaugeField_mem, if_neg (by decide),
      RegisteredField.unsetJson?, linked_gaugeField]
    rfl
  have hname : (Record.ofType "XMessage").typeName? = some "XMessage" := by decide
  have hname' : (gaugeRecord ⟨0x7FF8000000000000⟩).typeName? = some "XMessage" := by decide
  rw [hgauge.name_eq] at hencode hagain
  rw [encodeWith_eq hstore hgauge.toIsLoaded (hgauge.name_eq ▸ hname), if_neg Bool.false_ne_true] at hencode
  refine ⟨compiled, codec, _, again, result, h, hload, hdecode, rfl, ?_, hagain, hunset, fun hsame => ?_⟩
  · rw [encodeWith_eq hstore hgauge.toIsLoaded (hgauge.name_eq ▸ hname'), if_neg Bool.false_ne_true]
    obtain ⟨values, hvalues, hbytes⟩ := encodeRecord_eq_ok_iff.mp hencode
    exact encodeRecord_eq_ok_iff.mpr ⟨values, (hgauge.toMessage_null true).trans hvalues, hbytes⟩
  · have hfound := Record.map_get?_of_isNumericallySame hsame "size"
    rw [hunset] at hfound
    cases hfound

end Codec

end Tagwire
