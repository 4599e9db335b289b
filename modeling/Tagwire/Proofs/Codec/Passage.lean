import Tagwire.Proofs.Codec.RoundTrip
import Tagwire.Proofs.Mapping.Kept
import Tagwire.Proofs.Mapping.Typing
import Tagwire.Proofs.Schema.Plain

/-!
# In memory and over the wire

A record that becomes a message can come back from it directly, or by way of its bytes.  On the wire a field
that holds its default is left out, and filled in again when the message is shown; so both ways lead to the
same record, as long as the reader has depth for the message and no field in it holds a negative zero.
-/

set_option autoImplicit false

namespace Tagwire

open Schema

namespace Schema

variable {schema : Schema} {type : MessageType} {values : FieldValues}

/-- `messageToJson?` shows what is kept of a message as it shows the message, if no singular number in it is a
negative zero. -/
theorem IsPlain.messageToJson?_kept (hs : schema.IsPlain) (hm : schema.message? type.name = some type)
    (h : type.Holds schema values) (hz : FieldValues.hasNegativeZero values = false) :
    schema.messageToJson? type (schema.kept type values) = schema.messageToJson? type values := by
  have hvalue : schema.Holds .single (.message type.name) (.message values) :=
    holds_message_iff.mpr ⟨type, values, hm, rfl, h⟩
  have hsame := hvalue.map_valueToJson?_keptValue (g := id) hs schema.unpackAny? (by intro h; cases h) (.inr hz)
  have hid : Json.mapFloats id = id := funext Json.mapFloats_id
  rwa [hid, Option.map_id, id, id, keptValue_message hm] at hsame

/-- `fromMessage` of a message and `decodeRecord` of its bytes give the same record, if it nests at most
`maxNesting` levels and has no negative zero. -/
theorem IsPlain.fromMessage_eq_decodeRecord (hs : schema.IsPlain) (hm : schema.message? type.name = some type)
    (h : type.Holds schema values) (hd : FieldValues.nesting values ≤ maxNesting)
    (hz : FieldValues.hasNegativeZero values = false)
    (hlength : (schema.encode type values).length < 2 ^ 64) :
    schema.fromMessage type values = schema.decodeRecord type (schema.encode type values) := by
  rw [decodeRecord, hs.types.decode?_encode (hs.types _ type hm) h hd hlength]
  dsimp only
  rw [fromMessage, fromMessage, hs.messageToJson?_kept hm h hz]

/-! ## Types without forms of their own -/

/-- All these names are of message types without a JSON form of their own, whose fields refer to types of these
names only. -/
def IsOrdinaryWithin (schema : Schema) (names : String → Prop) : Prop :=
  ∀ name, names name → ∃ type, schema.message? name = some type ∧ type.name = name ∧
    type.IsOrdinary schema ∧ ∀ f ∈ type.fields, ∀ target, f.type = .message target → names target

/-- `valueToJson?` shows every value whose type refers to ordinary types only. -/
theorem Holds.exists_valueToJson? {names : String → Prop} (hp : schema.IsOrdinaryWithin names) (unpack : Unpack)
    {shape : FieldShape} {type : ValueType} {value : Value} (h : schema.Holds shape type value)
    (htype : ∀ target, type = .message target → names target) :
    ∃ json, schema.valueToJson? unpack type value = some json := by
  induction h with
  | @scalar type kind value hk h => exact ⟨_, valueToJson?_of_isScalar type (Scalar.isScalar_of_holds h)⟩
  | @list type items h ih =>
    obtain ⟨jsons, hjsons⟩ := exists_mapM_eq_some fun item hmem => ih item hmem htype
    exact ⟨.arr jsons, by rw [valueToJson?, itemsToJson?_eq_mapM, hjsons]; rfl⟩
  | @map name target kind keyField valueField entries hm he hn hkeys hvalues ih =>
    obtain ⟨found, hfound, -, -, htargets⟩ := hp name (htype name rfl)
    rw [hm, Option.some.injEq] at hfound
    subst hfound
    have hforms : ∀ e ∈ entries, ∃ m : String × Json,
        ((schema.valueToJson? unpack valueField.type e.2).map fun json => (e.1.text, json)) = some m := by
      intro e hmem
      obtain ⟨json, hjson⟩ := ih e hmem (htargets valueField (List.mem_of_find?_eq_some he.value))
      exact ⟨(e.1.text, json), by rw [hjson]; rfl⟩
    obtain ⟨shown, hshown⟩ := exists_mapM_eq_some hforms
    refine ⟨Json.ofMembers shown, ?_⟩
    rw [valueToJson?, ValueType.name, entryTypes?_eq_some hm he]
    dsimp only
    rw [entriesToJson?_eq_mapM, hshown]
    rfl
  | @message name type values hm hsorted hfound halone hfields ih =>
    obtain ⟨found, hfoundType, rfl, hordinary, hplain⟩ := hp name (htype name rfl)
    rw [hm, Option.some.injEq] at hfoundType
    subst hfoundType
    have hforms : ∀ e ∈ values, ∃ m : String × Json, ∃ f, type.field? e.1 = some f ∧
        schema.valueToJson? unpack f.type e.2 = some m.2 ∧ f.jsonName = m.1 := by
      intro e he
      obtain ⟨f, hf⟩ := Option.isSome_iff_exists.mp (hfound e he)
      obtain ⟨json, hjson⟩ := ih e he f hf (hplain f (List.mem_of_find?_eq_some hf))
      exact ⟨(f.jsonName, json), f, hf, hjson, rfl⟩
    obtain ⟨members, hmembers⟩ := exists_forall₂ hforms
    exact ⟨_, by rw [hordinary.valueToJson?_message, fieldsToJson?_eq_some hmembers]; rfl⟩

/-- `fromMessage` gives a record for every message whose type refers to ordinary types only. -/
theorem exists_fromMessage {names : String → Prop} (hp : schema.IsOrdinaryWithin names)
    (hn : names type.name) (hm : schema.message? type.name = some type) (h : type.Holds schema values) :
    ∃ record, schema.fromMessage type values = .ok record := by
  have hvalue : schema.Holds .single (.message type.name) (.message values) :=
    holds_message_iff.mpr ⟨type, values, hm, rfl, h⟩
  obtain ⟨json, hjson⟩ := hvalue.exists_valueToJson? hp schema.unpackAny?
    fun target htarget => ValueType.message.inj htarget ▸ hn
  obtain ⟨found, hfound, -, hordinary, -⟩ := hp type.name hn
  rw [hm, Option.some.injEq] at hfound
  subst hfound
  rw [hordinary.valueToJson?_message] at hjson
  obtain ⟨members, hmembers, hobject⟩ := Option.map_eq_some_iff.mp hjson
  refine ⟨⟨Entries.ofList (schema.unsetMembers type values ++ members)⟩, ?_⟩
  rw [fromMessage, messageToJson?, hordinary.valueToJson?_message, hmembers]
  rfl

end Schema

/-- The types of definitions without well-known kinds are ordinary, and refer to each other only. -/
theorem CompiledSchema.IsSound.isOrdinaryWithin {definitions : List RecordDefinition} {compiled : CompiledSchema}
    {schema : Schema} (hs : compiled.IsSound definitions)
    (hkinds : ∀ d ∈ definitions, ∀ f ∈ d.fields, f.2.kind.isBundled = false) (hl : compiled.IsLoaded schema) :
    schema.IsOrdinaryWithin (· ∈ compiled.registry.names) := by
  intro name hname
  obtain ⟨type, htype, rfl, ht⟩ := hl.types name hname
  refine ⟨type.linked, ht.linked, rfl, ht.isOrdinary, fun g hg => ?_⟩
  obtain ⟨f, hf, rfl⟩ := List.mem_map.mp hg
  intro target htarget
  have hk : Scalar.ofKeyword? f.typeName = none := by
    cases hk : Scalar.ofKeyword? f.typeName with
    | none => rfl
    | some kind =>
      rw [RegisteredField.type_linked, linkedType, hk] at htarget
      cases htarget
  obtain ⟨hlinked, hlisted⟩ := hs.type_linked hkinds hl htype hf hk
  rw [hlinked, ValueType.message.injEq] at htarget
  exact htarget ▸ hlisted

namespace Codec

variable {codec : Codec} {record : Record} {name : String} {strict : Bool}

/-- `toMessage` gives a record of a loaded type a message exactly when `encodeWith` gives it plain bytes, which
are those of the message. -/
theorem toMessage_eq_ok_iff {schema : Schema} {type : RegisteredType} (hstore : codec.store = ⟨some schema⟩)
    (ht : type.IsLoaded schema) (hname : record.typeName? = some type.name)
    {message : Schema × MessageType × FieldValues} : codec.toMessage record strict = .ok message ↔
      ∃ values, schema.toMessage type.linked strict record = .ok values ∧
        message = (schema, type.linked, values) := by
  unfold toMessage
  simp only [bind_eq_ok_iff, typeOf, hname, Except.ok.injEq, pure, Except.pure, Prod.exists]
  constructor
  · rintro ⟨_, rfl, found, foundType, hfind, values, hvalues, rfl⟩
    rw [find_eq_ok hstore ht] at hfind
    cases hfind
    exact ⟨values, hvalues, rfl⟩
  · rintro ⟨values, hvalues, rfl⟩
    exact ⟨_, rfl, schema, type.linked, find_eq_ok hstore ht, values, hvalues, rfl⟩

/-- `fromMessage` for a message of a loaded type, with the lookup done. -/
theorem fromMessage_eq {schema : Schema} {type : RegisteredType} (hstore : codec.store = ⟨some schema⟩)
    (ht : type.IsLoaded schema) (values : FieldValues) : codec.fromMessage type.linked values =
      (schema.fromMessage type.linked values).map fun record => record.withType type.name := by
  have hname : type.linked.name = type.name := rfl
  unfold fromMessage
  rw [hname, find_eq_ok hstore ht]
  show (schema.fromMessage type.linked values).bind _ = _
  cases schema.fromMessage type.linked values <;> rfl

/-- For definitions whose fields are scalars and records, `toMessage` gives a message for a record exactly when
`encodeWith` gives bytes with the same strictness.  Then `fromMessage` gives a record for the message, and
`decodeAs` gives the same one for the bytes, as long as the message nests at most `maxNesting` levels, no
singular number is a negative zero and the bytes are fewer than `2 ^ 64`. -/
theorem fromMessage_toMessage_eq_decodeAs {definitions : List RecordDefinition} {compiled : CompiledSchema}
    (h : compile definitions = .ok compiled)
    (hkinds : ∀ d ∈ definitions, ∀ f ∈ d.fields, f.2.kind.isBundled = false)
    (hload : SchemaStore.loadText {} compiled.document.text = .ok codec.store)
    (hname : record.typeName? = some name) (hlisted : name ∈ compiled.registry.names) :
    ((∃ message, codec.toMessage record strict = .ok message) ↔
      ∃ bytes, codec.encodeWith { verify := strict, predictive := false } record = .ok bytes) ∧
    ∀ schema type values bytes, codec.toMessage record strict = .ok (schema, type, values) →
      codec.encodeWith { verify := strict, predictive := false } record = .ok bytes →
      FieldValues.nesting values ≤ maxNesting → FieldValues.hasNegativeZero values = false →
      bytes.length < 2 ^ 64 →
      ∃ result, codec.fromMessage type values = .ok result ∧ codec.decodeAs bytes name = .ok result := by
  obtain ⟨schema, hstore, hl⟩ := CompiledSchema.exists_isLoaded_of_loadText h hload
  have hs : schema.IsPlain := CompiledSchema.isPlain_of_loadText h (hstore ▸ hload)
  obtain ⟨type, -, rfl, ht⟩ := hl.types name hlisted
  have hencode : ∀ bytes, codec.encodeWith { verify := strict, predictive := false } record = .ok bytes ↔
      ∃ values, schema.toMessage type.linked strict record = .ok values ∧
        schema.encode type.linked values = bytes := by
    intro bytes
    rw [encodeWith_eq hstore ht hname, if_neg Bool.false_ne_true, encodeRecord_eq_ok_iff]
  simp only [toMessage_eq_ok_iff hstore ht hname, hencode]
  refine ⟨?_, ?_⟩
  · constructor
    · rintro ⟨_, values, hvalues, -⟩
      exact ⟨_, values, hvalues, rfl⟩
    · rintro ⟨_, values, hvalues, -⟩
      exact ⟨_, values, hvalues, rfl⟩
  · rintro _ _ values _ ⟨own, hvalues, heq⟩ ⟨same, hsame, rfl⟩ hd hz hlength
    rw [Prod.mk.injEq, Prod.mk.injEq] at heq
    obtain ⟨-, rfl, rfl⟩ := heq
    obtain rfl : values = same := Except.ok.inj (hvalues.symm.trans hsame)
    have hm : schema.message? type.linked.name = some type.linked := ht.linked
    have hholds : type.linked.Holds schema values := by
      have ha : schema.Admits .single (.message type.linked.name) := ⟨type.linked, hm, nofun⟩
      have hvalue := holds_of_valueOfJson? hs.toIsTyped record.toJson ha (Schema.toMessage_eq_ok_iff.mp hvalues)
      obtain ⟨found, own, hfound, heq, hown⟩ := holds_message_iff.mp hvalue
      rw [hm, Option.some.injEq] at hfound
      cases heq
      exact hfound ▸ hown
    have hp := (Compilation.isSound_of_compile h).isOrdinaryWithin hkinds hl
    obtain ⟨result, hresult⟩ := exists_fromMessage hp hlisted hm hholds
    refine ⟨result.withType type.name, ?_, ?_⟩
    · rw [fromMessage_eq hstore ht, hresult]
      rfl
    · rw [decodeAs_eq hstore ht, ← hs.fromMessage_eq_decodeRecord hm hholds hd hz hlength, hresult]
      rfl

end Codec

/-- A node with the text `3` for the integer `size` of its leaf, and with null for its names. -/
def sparseNode : Record :=
  ⟨[("leaf", .obj [("size", .str "3")]), ("names", .null), ("type", .str "NodeMessage")], by decide⟩

/-- The message of `sparseNode`, in which `size` is the integer 3 and the list of names is empty. -/
def sparseNodeValues : FieldValues :=
  [(1, .string "NodeMessage"), (2, .message [(2, .int 3)]), (3, .list [])]

/-- `toMessage` gives `sparseNodeValues` for `sparseNode`, with strictness or without, in fewer than `2 ^ 64`
bytes. -/
theorem toMessage_sparseNode {schema : Schema} {leaf node : RegisteredType} (hleaf : leaf.IsLoaded schema)
    (hleafName : leaf.name = "LeafMessage") (hleafFields : leaf.fields = leafFields)
    (hnode : node.IsLoaded schema) (hnodeName : node.name = "NodeMessage")
    (hnodeFields : node.fields = nodeFields) (strict : Bool) :
    schema.toMessage node.linked strict sparseNode = .ok sparseNodeValues ∧
      (schema.encode node.linked sparseNodeValues).length < 2 ^ 64 := by
  have hint : Scalar.int32.ofJson? (.str "3") = some (.int 3) := rfl
  have htext : ∀ text, Scalar.string.ofJson? (.str text) = some (.string text) := fun _ => rfl
  have hmessage := hleaf.linked
  have hform := hleaf.ofTypeName?_eq_none
  have hmessage' := hnode.linked
  have hform' := hnode.ofTypeName?_eq_none
  rw [Schema.toMessage_eq_ok_iff]
  simp only [linked_leaf hleafName hleafFields, linked_node hnodeName hnodeFields, hleafName, hnodeName,
    leafType, nodeType, RegisteredField.linked_typeTag] at hmessage hform hmessage' hform' ⊢
  constructor
  · simp [valueOfJson?, fieldsOfJson?, ofMember, ofNull, MessageType.member?, MessageType.rivals,
      FieldValues.set, hmessage, hform, hmessage', hform', hint, htext, sparseNode, sparseNodeValues,
      Record.toJson, typeField]
  · simp [encode, encodeField, MessageType.field?, MessageField.omits, Value.isDefault,
      MessageField.encodeScalar, MessageField.encodeBody, ValueType.scalar?, ValueType.name, hmessage,
      sparseNodeValues]
    decide +kernel

namespace Codec

/-- `sparseNode` becomes the message `sparseNodeValues`, and `fromMessage` of this message and `decodeAs` of its
bytes give the same record. -/
theorem fromMessage_sparseNode : ∃ compiled, ∃ codec : Codec, ∃ schema type bytes result,
    compile nodeDefinitions = .ok compiled ∧
      SchemaStore.loadText {} compiled.document.text = .ok codec.store ∧
      codec.toMessage sparseNode true = .ok (schema, type, sparseNodeValues) ∧
      codec.encodeWith { verify := true, predictive := false } sparseNode = .ok bytes ∧
      codec.fromMessage type sparseNodeValues = .ok result ∧
      codec.decodeAs bytes "NodeMessage" = .ok result := by
  obtain ⟨compiled, leaf, node, h, hlinkable, hleaf, hleafFields, hnode, hnodeFields⟩ :=
    exists_compile_nodeDefinitions
  obtain ⟨same, codec, schema, hsame, hload, -, hstore, hl⟩ :=
    CompilesLinkable.exists_codec ⟨compiled, h, hlinkable⟩ .builtIn
  obtain rfl : compiled = same := Except.ok.inj (h.symm.trans hsame)
  obtain ⟨hleafName, hleafLoaded⟩ := hl.of_get? hleaf
  obtain ⟨hnodeName, hnodeLoaded⟩ := hl.of_get? hnode
  obtain ⟨hmessage, hlength⟩ := toMessage_sparseNode hleafLoaded hleafName hleafFields hnodeLoaded hnodeName
    hnodeFields true
  have hkinds : ∀ d ∈ nodeDefinitions, ∀ f ∈ d.fields, f.2.kind.isBundled = false := by decide
  have hname : sparseNode.typeName? = some "NodeMessage" := by decide
  have hnamed : sparseNode.typeName? = some node.name := hnodeName ▸ hname
  have htoMessage : codec.toMessage sparseNode true = .ok (schema, node.linked, sparseNodeValues) :=
    (toMessage_eq_ok_iff hstore hnodeLoaded hnamed).mpr ⟨_, hmessage, rfl⟩
  have hencode : codec.encodeWith { verify := true, predictive := false } sparseNode =
      .ok (schema.encode node.linked sparseNodeValues) := by
    rw [encodeWith_eq hstore hnodeLoaded hnamed, if_neg Bool.false_ne_true]
    exact encodeRecord_eq_ok_iff.mpr ⟨_, hmessage, rfl⟩
  obtain ⟨result, hfrom, hdecode⟩ := (fromMessage_toMessage_eq_decodeAs h hkinds hload hname
    (Registry.mem_names_of_get? hnode)).2 _ _ _ _ htoMessage hencode (by decide) (by decide) hlength
  exact ⟨compiled, codec, schema, node.linked, _, result, h, hload, htoMessage, hencode, hfrom, hdecode⟩

end Codec

end Tagwire
