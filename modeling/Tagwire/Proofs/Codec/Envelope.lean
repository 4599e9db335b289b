import Tagwire.Proofs.Cipher.Tag
import Tagwire.Proofs.Codec.RoundTrip
import Tagwire.Proofs.Mapping.TypedBytes

/-!
# Envelopes decode like plain bytes

An envelope is the message of a record with a tag for the text of its type.  The tag fills the slot behind
the header, so that the type is found again.  What else is decoded does not depend on the text of the type,
and it has a member wherever a fresh record of the type has one, so that nothing of the fresh record is
left.
-/

set_option autoImplicit false

namespace Tagwire

open Schema

/-! ## The slot of the tag -/

/-- A text of fewer than 128 bytes is written behind a single byte for its length. -/
theorem Scalar.encode_string {text : String} (h : text.utf8ByteSize < 128) :
    Scalar.string.encode (.string text) = UInt8.ofNat text.utf8ByteSize :: Bytes.ofString text := by
  show lengthPrefixed (Bytes.ofString text) = _
  rw [lengthPrefixed, Bytes.length_ofString, Varint.encode, if_pos h]
  rfl

/-- A text of fewer than 128 bytes is written in fewer than `2 ^ 64`. -/
theorem Scalar.length_encode_string_lt {text : String} (h : text.utf8ByteSize < 128) :
    (Scalar.string.encode (.string text)).length < 2 ^ 64 := by
  rw [encode_string h, List.length_cons, Bytes.length_ofString]
  omega

/-- `encrypt` gives tags of `tagLength` bytes, which is 32. -/
theorem TagCipher.utf8ByteSize_of_encrypt {cipher : TagCipher} {name tag : String}
    (h : cipher.encrypt name = .ok tag) : tag.utf8ByteSize = tagLength := by
  obtain ⟨digits, -, hdigits, hlength, -⟩ := exists_digits_of_encrypt h
  rw [← Bytes.length_ofString, hdigits, hlength]

/-- `encrypt` gives no empty tag. -/
theorem TagCipher.ne_empty_of_encrypt {cipher : TagCipher} {name tag : String}
    (h : cipher.encrypt name = .ok tag) : tag ≠ "" := by
  rintro rfl
  cases utf8ByteSize_of_encrypt h

/-- `header` and a tag are the bytes of field 1 with the tag for its text. -/
theorem Envelope.header_append {cipher : TagCipher} {name tag : String}
    (h : cipher.encrypt name = .ok tag) : header ++ Bytes.ofString tag =
      WireKey.encode ⟨1, .lengthDelimited⟩ ++ Scalar.string.encode (.string tag) := by
  have hsize := TagCipher.utf8ByteSize_of_encrypt h
  rw [WireKey.encode_first, Scalar.encode_string (by rw [hsize]; decide), hsize]
  rfl

/-- `slot` gives digits exactly when the bytes are `header`, these digits and anything else, and the digits are
`tagLength` hexadecimal ones. -/
theorem Envelope.slot_eq_ok_iff {bytes digits : Bytes} : slot bytes = .ok digits ↔
    ∃ rest, bytes = header ++ (digits ++ rest) ∧ digits.length = tagLength ∧
      ∀ c ∈ digits, (Hex.value? c).isSome = true := by
  unfold slot
  dsimp only
  constructor
  · intro h
    split at h
    · cases h
    · rename_i hlong
      split at h
      · cases h
      · rename_i hheader
        split at h
        · rename_i hhex
          cases h
          refine ⟨(bytes.drop header.length).drop tagLength, ?_, ?_, List.all_eq_true.mp hhex⟩
          · calc bytes = bytes.take header.length ++ bytes.drop header.length :=
                  (List.take_append_drop _ bytes).symm
              _ = header ++ bytes.drop header.length := by rw [not_not.mp hheader]
              _ = _ := by rw [List.take_append_drop]
          · rw [minLength] at hlong
            rw [List.length_take, List.length_drop]
            omega
        · cases h
  · rintro ⟨rest, rfl, hlength, hhex⟩
    have hlong : ¬ (header ++ (digits ++ rest)).length < minLength := by
      rw [List.length_append, List.length_append, minLength, hlength]
      omega
    have htake : (digits ++ rest).take tagLength = digits := hlength ▸ List.take_left
    rw [if_neg hlong, List.take_left, if_neg (not_not.mpr rfl), List.drop_left, htake,
      if_pos (List.all_eq_true.mpr hhex)]

/-- `slot` gives the tag behind `header`, whatever follows it. -/
theorem Envelope.slot_header {cipher : TagCipher} {name tag : String} (h : cipher.encrypt name = .ok tag)
    (rest : Bytes) : slot (header ++ (Bytes.ofString tag ++ rest)) = .ok (Bytes.ofString tag) := by
  obtain ⟨digits, -, hdigits, hlength, hhex⟩ := TagCipher.exists_digits_of_encrypt h
  rw [hdigits]
  exact slot_eq_ok_iff.mpr ⟨rest, rfl, hlength, hhex⟩

/-- `peek` gives the name that the tag behind `header` was encrypted from, whatever follows it. -/
theorem Envelope.peek_header {cipher : TagCipher} {name tag : String} (h : cipher.encrypt name = .ok tag)
    (rest : Bytes) : peek cipher (header ++ (Bytes.ofString tag ++ rest)) = .ok name := by
  obtain ⟨digits, htag, hdigits, -, -⟩ := TagCipher.exists_digits_of_encrypt h
  unfold peek
  rw [slot_header h]
  show (cipher.decrypt (Hex.ofCodes (Bytes.ofString tag))).mapError EnvelopeError.undecryptable = _
  rw [hdigits, ← htag, TagCipher.decrypt_encrypt h]
  rfl

namespace RegisteredType.IsLoaded

variable {schema : Schema} {type : RegisteredType}

/-- The bytes of a message with a tag for its type are `header`, the tag, and the bytes of the other fields. -/
theorem encode_tag (ht : type.IsLoaded schema) {cipher : TagCipher} {name tag : String}
    (h : cipher.encrypt name = .ok tag) (others : FieldValues) :
    schema.encode type.linked (FieldValues.typed tag others) =
      Envelope.header ++ (Bytes.ofString tag ++ schema.encode type.linked others) := by
  have hkey : RegisteredField.typeTag.linked.key .lengthDelimited = WireKey.encode ⟨1, .lengthDelimited⟩ := by
    rw [RegisteredField.linked_typeTag]
    rfl
  rw [ht.encode_typed (TagCipher.ne_empty_of_encrypt h), hkey, ← List.append_assoc,
    ← Envelope.header_append h, List.append_assoc]

/-! ## What is decoded -/

/-- Two messages that differ in the text of their type only, each text of fewer than 128 bytes, are decoded as
the same record once its type is set. -/
theorem decodeRecord_typed (ht : type.IsLoaded schema) {s t : String} (hs : s ≠ "") (ht' : t ≠ "")
    (hsize : s.utf8ByteSize < 128) (htsize : t.utf8ByteSize < 128) (others : FieldValues) (name : String) :
    (schema.decodeRecord type.linked (schema.encode type.linked (FieldValues.typed s others))).map
        (·.withType name) =
      (schema.decodeRecord type.linked (schema.encode type.linked (FieldValues.typed t others))).map
        (·.withType name) := by
  have hread := ht.decode?_typed_rel hs ht' (Scalar.length_encode_string_lt hsize)
    (Scalar.length_encode_string_lt htsize) others
  have hform := rel_bind hread fun a b _ hab => ht.messageToJson?_rel hab
  rw [decodeRecord_eq, decodeRecord_eq]
  generalize (schema.decode? type.linked (schema.encode type.linked (FieldValues.typed s others))).bind
    (schema.messageToJson? type.linked) = x at hform ⊢
  generalize (schema.decode? type.linked (schema.encode type.linked (FieldValues.typed t others))).bind
    (schema.messageToJson? type.linked) = y at hform ⊢
  cases hform with
  | none => rfl
  | some hrecords =>
    obtain ⟨members, members', rfl, rfl, hsorted, hsorted', hsame⟩ := hrecords
    refine congrArg Except.ok (Record.withType_congr (fun key hkey => ?_) name)
    rw [Record.get?_ofList hsorted, Record.get?_ofList hsorted', hsame key hkey]

/-- The fresh record of a type without a constructor leaves no trace under what `decodeRecord` reads: every
member that it has is decoded as well. -/
theorem withType_extend_instantiate (ht : type.IsLoaded schema) {registered : RegisteredType}
    (hfields : registered.fields = type.fields) (hfresh : registered.constructed = none) {bytes : Bytes}
    {record : Record} (h : schema.decodeRecord type.linked bytes = .ok record) (name : String) :
    (registered.instantiate.extend (record.erase typeField)).withType name = record.withType name := by
  refine Record.withType_extend_erase (fun key hkey hnone => ?_) name
  apply (get?_instantiate_eq_none_iff hfresh hkey).mpr
  intro f hf hname
  by_contra hdefault
  have hloaded : f ∈ type.fields := hfields ▸ hf
  have hkey : f.linked.jsonName = key := (ht.jsonName_linked hloaded).trans hname
  exact get?_ne_none_of_decodeRecord ht.isOrdinary h (List.mem_map_of_mem hloaded)
    (RegisteredField.presence_linked_eq_false hdefault) (hkey ▸ hnone)

/-! ## Messages of records -/

/-- `toMessage` of a record with the text `text` for its type gives the message with this text in field 1, and
with other fields that do not depend on `text`. -/
theorem exists_toMessage_typed (ht : type.IsLoaded schema) {record : Record}
    {name : String} (hname : record.typeName? = some name) (strict : Bool) :
    ∃ others? : Option FieldValues, ∀ text values,
      schema.toMessage type.linked strict (record.withType text) = .ok values ↔
        others?.map (FieldValues.typed text) = some values := by
  obtain ⟨others?, hothers⟩ := ht.exists_fieldsOfJson?_typed record.sorted (Record.get?_typeField hname) strict
  refine ⟨others?, fun text values => ?_⟩
  have hread : schema.valueOfJson? strict .single (.message type.name) (record.withType text).toJson =
      (others?.map (FieldValues.typed text)).map .message := by
    rw [← hothers text]
    exact ht.valueOfJson?_obj _
  rw [toMessage_eq_ok_iff]
  show schema.valueOfJson? strict .single (.message type.name) (record.withType text).toJson = _ ↔ _
  rw [hread, Option.map_eq_some_iff]
  constructor
  · rintro ⟨values', hvalues, hmessage⟩
    cases hmessage
    exact hvalues
  · exact fun hvalues => ⟨values, hvalues, rfl⟩

end RegisteredType.IsLoaded

namespace Codec

variable {codec : Codec} {schema : Schema} {type : RegisteredType} {record : Record} {bytes : Bytes}

/-- `encodeEnvelope` gives the bytes of the message of the record with the tag of its type for its type. -/
theorem encodeEnvelope_eq_ok_iff (ht : type.IsLoaded schema) :
    codec.encodeEnvelope schema type.linked type.name record = .ok bytes ↔
      ∃ tag values, codec.cipher.encrypt type.name = .ok tag ∧
        schema.toMessage type.linked false (record.withType tag) = .ok values ∧
        schema.encode type.linked values = bytes := by
  unfold encodeEnvelope
  rw [ht.hasTypeTag_linked, Bool.not_true, if_neg Bool.false_ne_true]
  by_cases hlong : maxTagNameBytes < type.name.utf8ByteSize
  · rw [if_pos hlong]
    refine ⟨fun herror => (by cases herror), ?_⟩
    rintro ⟨tag, values, htag, -⟩
    exact absurd (TagCipher.encrypt_eq_ok_iff.mp htag).1 (not_le.mpr hlong)
  · rw [if_neg hlong]
    simp only [bind_eq_ok_iff, mapError_eq_ok_iff, encodeRecord_eq_ok_iff]
    constructor
    · rintro ⟨tag, htag, values, hvalues, hbytes⟩
      exact ⟨tag, values, htag, hvalues, hbytes⟩
    · rintro ⟨tag, values, htag, hvalues, hbytes⟩
      exact ⟨tag, htag, values, hvalues, hbytes⟩

/-- `encodeWith` gives a record of a loaded type an envelope exactly if the type has a tag and the record plain
bytes; the messages in the two differ in the text of field 1 only. -/
theorem encodeWith_predictive_eq_ok_iff (hstore : codec.store = ⟨some schema⟩) (ht : type.IsLoaded schema)
    (hname : record.typeName? = some type.name) {verify : Bool} :
    codec.encodeWith { verify, predictive := true } record = .ok bytes ↔
      ∃ tag others, codec.cipher.encrypt type.name = .ok tag ∧
        schema.toMessage type.linked verify record = .ok (FieldValues.typed type.name others) ∧
        schema.encode type.linked (FieldValues.typed tag others) = bytes := by
  obtain ⟨others?, hothers⟩ := ht.exists_toMessage_typed hname false
  have hsame : record.withType type.name = record := Record.withType_eq (Record.get?_typeField hname)
  have hlenient := hothers type.name
  rw [hsame] at hlenient
  rw [encodeWith_eq hstore ht hname, if_pos rfl]
  refine bind_eq_ok_iff.trans ?_
  simp only [encodeEnvelope_eq_ok_iff ht]
  -- An envelope is made without strictness; where it is checked, strictness gives the same message.
  constructor
  · rintro ⟨⟨⟩, hverified, tag, values, htag, hvalues, hbytes⟩
    rw [hothers, Option.map_eq_some_iff] at hvalues
    obtain ⟨others, hsome, rfl⟩ := hvalues
    have hplain : schema.toMessage type.linked false record = .ok (FieldValues.typed type.name others) := by
      rw [hlenient, hsome, Option.map_some]
    refine ⟨tag, others, htag, ?_, hbytes⟩
    cases verify with
    | false => exact hplain
    | true =>
      rw [if_pos rfl, map_eq_ok_iff] at hverified
      obtain ⟨strict, hstrict, -⟩ := hverified
      have hagree := toMessage_of_strict hstrict false
      rw [hplain, Except.ok.injEq] at hagree
      rw [hagree]
      exact hstrict
  · rintro ⟨tag, others, htag, hmessage, hbytes⟩
    have hplain : schema.toMessage type.linked false record = .ok (FieldValues.typed type.name others) := by
      cases verify with
      | false => exact hmessage
      | true => exact toMessage_of_strict hmessage false
    rw [hlenient, Option.map_eq_some_iff] at hplain
    obtain ⟨others', hsome, heq⟩ := hplain
    cases heq
    refine ⟨⟨⟩, ?_, tag, FieldValues.typed tag others, htag, ?_, hbytes⟩
    · cases verify with
      | false => rfl
      | true => rw [if_pos rfl, hmessage]; rfl
    · rw [hothers, hsome, Option.map_some]

/-- Through a registry whose type has the fields of the message type and no constructor, `decodePredictive`
gives what `decodeAs` gives for the name in the tag. -/
theorem decodePredictive_eq_decodeAs (hstore : codec.store = ⟨some schema⟩) (ht : type.IsLoaded schema)
    (hpeek : Envelope.peek codec.cipher bytes = .ok type.name) {registry : Registry}
    {registered : RegisteredType} (hfound : registry.get? type.name = some registered)
    (hname : registered.name = type.name) (hfields : registered.fields = type.fields)
    (hfresh : registered.constructed = none) :
    codec.decodePredictive bytes registry = codec.decodeAs bytes type.name := by
  have hschema : codec.store.schema = .ok schema := hstore ▸ rfl
  have htype : codec.peekType bytes = .ok type.name := by rw [peekType, hpeek]; rfl
  rw [decodeAs_eq hstore ht, decodePredictive_eq hschema htype hfound, find_eq_ok hstore ht]
  show (schema.decodeRecord type.linked bytes).map _ = _
  cases hdecode : schema.decodeRecord type.linked bytes with
  | error e => rfl
  | ok record =>
    have hrecord := ht.withType_extend_instantiate hfields hfresh hdecode registered.name
    rw [hname] at hrecord
    show Except.ok ((registered.instantiate.extend (record.erase typeField)).withType registered.name) = _
    rw [hname, hrecord]
    rfl

end Codec

/-- The registry of a compilation, and the one that the store builds from its document, both have each compiled
type with its fields and without a constructor. -/
theorem CompiledSchema.IsLoaded.exists_registered {compiled : CompiledSchema} {schema : Schema}
    (hl : compiled.IsLoaded schema) {registry : Registry}
    (h : registry = compiled.registry ∨ registry = schema.registry) {name : String} {type : RegisteredType}
    (htype : compiled.registry.get? name = some type) : ∃ registered, registry.get? name = some registered ∧
      registered.name = name ∧ registered.fields = type.fields ∧ registered.constructed = none := by
  obtain ⟨htypeName, ht⟩ := hl.of_get? htype
  rcases h with rfl | rfl
  · exact ⟨type, htype, htypeName, rfl, ht.constructed⟩
  · exact ⟨_, hl.get?_registry htype, rfl, rfl, rfl⟩

/-- Where `encodeWith` gives a record of a compiled type an envelope, it gives it plain bytes too, for either
value of `verify`.  `decodePredictive` of the envelope, `decodeAs` of the envelope and `decodeAs` of the plain
bytes have one outcome, through the registry of the compilation and through that of the store alike. -/
theorem Codec.decodePredictive_encodeWith {definitions : List RecordDefinition} {compiled : CompiledSchema}
    (h : compile definitions = .ok compiled) {codec : Codec}
    (hload : SchemaStore.loadText {} compiled.document.text = .ok codec.store) {registry : Registry}
    (hregistry : registry = compiled.registry ∨ codec.store.registry = .ok registry) {record : Record}
    {name : String} (hname : record.typeName? = some name)
    (hcompiled : name ∈ compiled.registry.names) {verify : Bool} {envelope : Bytes}
    (hencode : codec.encodeWith { verify, predictive := true } record = .ok envelope) :
    ∃ plain, codec.encodeWith { verify, predictive := false } record = .ok plain ∧
      codec.decodePredictive envelope registry = codec.decodeAs envelope name ∧
      codec.decodeAs envelope name = codec.decodeAs plain name := by
  obtain ⟨schema, hstore, hl⟩ := CompiledSchema.exists_isLoaded_of_loadText h hload
  obtain ⟨type, htype, rfl, ht⟩ := hl.types name hcompiled
  obtain ⟨tag, others, htag, hmessage, rfl⟩ :=
    (encodeWith_predictive_eq_ok_iff hstore ht hname).mp hencode
  have hshort : type.name.utf8ByteSize ≤ maxTagNameBytes := (TagCipher.encrypt_eq_ok_iff.mp htag).1
  have hmax : maxTagNameBytes = 15 := rfl
  have hlength : tagLength = 32 := rfl
  refine ⟨schema.encode type.linked (FieldValues.typed type.name others), ?_, ?_, ?_⟩
  · rw [encodeWith_eq hstore ht hname, if_neg Bool.false_ne_true]
    exact encodeRecord_eq_ok_iff.mpr ⟨_, hmessage, rfl⟩
  · have hchosen : registry = compiled.registry ∨ registry = schema.registry := by
      apply hregistry.imp_right
      intro hown
      rw [hstore] at hown
      exact (Except.ok.inj hown).symm
    obtain ⟨registered, hfound, hregistered, hfields, hfresh⟩ := hl.exists_registered hchosen htype
    refine decodePredictive_eq_decodeAs hstore ht ?_ hfound hregistered hfields hfresh
    rw [ht.encode_tag htag]
    exact Envelope.peek_header htag _
  · rw [decodeAs_eq hstore ht, decodeAs_eq hstore ht]
    -- A tag and a name that has one are short texts, and neither is empty.
    refine ht.decodeRecord_typed (TagCipher.ne_empty_of_encrypt htag) (Record.ne_empty_of_typeName? hname)
      ?_ ?_ others type.name
    · rw [TagCipher.utf8ByteSize_of_encrypt htag]
      omega
    · omega

/-- A record of type `NodeMessage` with none of its fields, but with a member `other` that it does not
declare. -/
def looseNodeRecord : Record := ⟨[("other", .int 3), ("type", .str "NodeMessage")], by decide⟩

/-- `toMessage` without strictness passes over the member `other` of `looseNodeRecord`. -/
theorem toMessage_looseNodeRecord {schema : Schema} {node : RegisteredType} (ht : node.IsLoaded schema)
    (hfields : node.fields = nodeFields) : schema.toMessage node.linked false looseNodeRecord =
      .ok (FieldValues.typed "NodeMessage" []) := by
  have hother : node.linked.member? "other" = none := by
    have hnone : (MessageType.member? ⟨"NodeMessage", nodeFields.map RegisteredField.linked⟩
        "other").isNone = true := by
      decide
    rw [RegisteredType.linked, hfields]
    exact Option.isNone_iff_eq_none.mp hnone
  have hread : schema.fieldsOfJson? false node.linked false [] looseNodeRecord.members =
      some (FieldValues.typed "NodeMessage" []) := by
    show schema.fieldsOfJson? false node.linked false [] [("other", .int 3), (typeField, .str "NodeMessage")] = _
    rw [fieldsOfJson?_cons_eq_bind, setMember?_of_member?_eq_none hother,
      if_neg Bool.false_ne_true, Option.bind_some, fieldsOfJson?_cons_eq_bind]
    exact congrArg (Option.bind · _) (ht.setMember?_typeTag [] "NodeMessage")
  rw [toMessage_eq_ok_iff]
  show schema.valueOfJson? false .single (.message node.name) (.obj looseNodeRecord.members) = _
  rw [ht.valueOfJson?_obj, hread]
  rfl

/-- `looseNodeRecord`, which has a member that `NodeMessage` does not declare, is encoded without verification
to an envelope and to plain bytes that decode to the same record. -/
theorem Codec.decodePredictive_encodeWith_looseNodeRecord : ∃ compiled store envelope plain,
    compile nodeDefinitions = .ok compiled ∧
      SchemaStore.loadText {} compiled.document.text = .ok store ∧
      Codec.encodeWith { store, cipher := .builtIn } { verify := false, predictive := true }
        looseNodeRecord = .ok envelope ∧
      Codec.encodeWith { store, cipher := .builtIn } { verify := false, predictive := false }
        looseNodeRecord = .ok plain ∧
      Codec.decodePredictive { store, cipher := .builtIn } envelope compiled.registry =
        Codec.decodeAs { store, cipher := .builtIn } envelope "NodeMessage" ∧
      Codec.decodeAs { store, cipher := .builtIn } envelope "NodeMessage" =
        Codec.decodeAs { store, cipher := .builtIn } plain "NodeMessage" := by
  obtain ⟨compiled, -, node, h, hlinkable, -, -, hnode, hfields⟩ := exists_compile_nodeDefinitions
  obtain ⟨schema, hloaded, hload⟩ := CompiledSchema.exists_isLoaded h
  have hstore := (hload ⟨some schema⟩).mpr ⟨hlinkable, rfl⟩
  obtain ⟨hnodeName, ht⟩ := (hloaded hlinkable).of_get? hnode
  let codec : Codec := { store := ⟨some schema⟩, cipher := .builtIn }
  have hstored : SchemaStore.loadText {} compiled.document.text = .ok codec.store := hstore
  have hname : looseNodeRecord.typeName? = some "NodeMessage" := by decide
  have htag : codec.cipher.encrypt node.name = .ok (Hex.ofCodes (codec.cipher.encryptBytes
      (Bytes.ofString node.name))) := by
    refine TagCipher.encrypt_eq_ok_iff.mpr ⟨?_, rfl⟩
    rw [hnodeName]
    decide
  have hencode := (encodeWith_predictive_eq_ok_iff rfl ht (hnodeName ▸ hname)).mpr
    ⟨_, [], htag, hnodeName ▸ toMessage_looseNodeRecord ht hfields, rfl⟩
  obtain ⟨plain, hplain, hdecode, hsame⟩ := Codec.decodePredictive_encodeWith h hstored (.inl rfl)
    hname (Registry.mem_names_of_get? hnode) hencode
  exact ⟨compiled, codec.store, _, plain, h, hstore, hencode, hplain, hdecode, hsame⟩

end Tagwire
