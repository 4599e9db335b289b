import Tagwire.Proofs.Codec.Framing

/-!
# Plain bytes are no envelope

Plain bytes start with the name of their type, behind the same key as a tag.  The name may even have the
length of a tag, so that the bytes start with the header of an envelope.  But the names of compiled messages
all end in a word with letters that are no digits: what stands in the slot is not hexadecimal, and no cipher
is asked what it means.
-/

set_option autoImplicit false

namespace Tagwire

open Schema

/-- A name that ends in `messageSuffix` has a character that is no hexadecimal digit. -/
theorem exists_value?_eq_none (stem : String) :
    ∃ c ∈ Bytes.ofString (stem ++ messageSuffix), Hex.value? c = none := by
  have hletter : 0x4D ∈ Bytes.ofString messageSuffix := by
    rw [Bytes.ofString_eq]
    decide
  rw [Bytes.ofString_append]
  exact ⟨0x4D, List.mem_append_right _ hletter, by decide⟩

/-- `slot` refuses bytes with a text of fewer than 256 bytes in field 1 that has a character which is no
hexadecimal digit. -/
theorem Envelope.exists_slot_eq_error {text : String} (hsize : text.utf8ByteSize < 256)
    (h : ∃ c ∈ Bytes.ofString text, Hex.value? c = none) (rest : Bytes) :
    ∃ error, slot (0x0A :: UInt8.ofNat text.utf8ByteSize :: (Bytes.ofString text ++ rest)) =
      .error error := by
  cases hslot : slot (0x0A :: UInt8.ofNat text.utf8ByteSize :: (Bytes.ofString text ++ rest)) with
  | error e => exact ⟨e, rfl⟩
  | ok digits =>
    obtain ⟨more, hbytes, hlength, hdigits⟩ := slot_eq_ok_iff.mp hslot
    obtain ⟨-, hsecond, hbehind⟩ : (0x0A : UInt8) = 0x0A ∧ UInt8.ofNat text.utf8ByteSize = 0x20 ∧
        Bytes.ofString text ++ rest = digits ++ more := by
      simpa [header, tagLength, blockLength] using hbytes
    have hthirtyTwo : text.utf8ByteSize = 32 := by
      have hnat := congrArg UInt8.toNat hsecond
      rw [UInt8.toNat_ofNat', Nat.mod_eq_of_lt hsize] at hnat
      exact hnat
    -- The text has the length of a tag, and is therefore what the slot holds.
    have htext : Bytes.ofString text = digits := by
      refine (List.append_inj hbehind ?_).1
      rw [Bytes.length_ofString, hthirtyTwo, hlength]
      rfl
    obtain ⟨c, hc, hnone⟩ := h
    have hsome := hdigits c (htext ▸ hc)
    rw [hnone] at hsome
    cases hsome

namespace Codec

variable {codec : Codec} {schema : Schema} {type : RegisteredType} {record : Record} {bytes : Bytes}

/-- The plain bytes of a record of a loaded type are those of a message with the name of the type in field 1. -/
theorem exists_typed_of_encodeWith (hstore : codec.store = ⟨some schema⟩) (ht : type.IsLoaded schema)
    (hname : record.typeName? = some type.name) {verify : Bool}
    (h : codec.encodeWith { verify, predictive := false } record = .ok bytes) :
    ∃ others, schema.encode type.linked (FieldValues.typed type.name others) = bytes := by
  rw [encodeWith_eq hstore ht hname, if_neg Bool.false_ne_true] at h
  obtain ⟨values, hmessage, rfl⟩ := encodeRecord_eq_ok_iff.mp h
  obtain ⟨others?, hothers⟩ := ht.exists_toMessage_typed hname verify
  rw [← Record.withType_eq (Record.get?_typeField hname), hothers, Option.map_eq_some_iff] at hmessage
  obtain ⟨others, -, rfl⟩ := hmessage
  exact ⟨others, rfl⟩

/-- Bytes that `slot` refuses are refused by `isEnvelope`, `peekType` and `decodePredictive`, through every
registry. -/
theorem decodePredictive_of_slot_eq_error (codec : Codec) (hschema : codec.store.schema = .ok schema)
    {error : EnvelopeError} (h : Envelope.slot bytes = .error error) (registry : Registry) :
    Envelope.isEnvelope bytes = false ∧ codec.peekType bytes = .error (.format (.envelope error)) ∧
      codec.decodePredictive bytes registry = .error (.format (.envelope error)) := by
  have hpeek : codec.peekType bytes = .error (.format (.envelope error)) := by
    unfold peekType Envelope.peek
    rw [h]
    rfl
  refine ⟨by rw [Envelope.isEnvelope, h], hpeek, ?_⟩
  unfold decodePredictive
  rw [hschema, hpeek]
  rfl

/-- `peekType` refuses the plain bytes of a record of a compiled type with every cipher, and `decodePredictive`
with every cipher and through every registry: the bytes of a type name are not the digits of a tag. -/
theorem decodePredictive_plain {definitions : List RecordDefinition} {compiled : CompiledSchema}
    (h : compile definitions = .ok compiled)
    (hload : SchemaStore.loadText {} compiled.document.text = .ok codec.store)
    {name : String} (hname : record.typeName? = some name) (hcompiled : name ∈ compiled.registry.names)
    {verify : Bool} {plain : Bytes}
    (hencode : codec.encodeWith { verify, predictive := false } record = .ok plain) :
    Envelope.isEnvelope plain = false ∧ ∃ error, ∀ (cipher : TagCipher) (registry : Registry),
      { codec with cipher }.peekType plain = .error (.format (.envelope error)) ∧
        { codec with cipher }.decodePredictive plain registry = .error (.format (.envelope error)) := by
  obtain ⟨schema, hstore, hl⟩ := CompiledSchema.exists_isLoaded_of_loadText h hload
  obtain ⟨type, -, rfl, ht⟩ := hl.types name hcompiled
  obtain ⟨others, rfl⟩ := exists_typed_of_encodeWith hstore ht hname hencode
  have hsize : type.name.utf8ByteSize ≤ maxMessageNameBytes := by
    have hwellFormed := ht.wellFormed
    simp only [isMessageName, Bool.and_eq_true, decide_eq_true_eq] at hwellFormed
    exact hwellFormed.1.1
  have hmax : maxMessageNameBytes = 32 := rfl
  have hletter : ∃ c ∈ Bytes.ofString type.name, Hex.value? c = none := by
    obtain ⟨stem, hstem⟩ := ht.suffix
    rw [hstem]
    exact exists_value?_eq_none stem
  obtain ⟨error, herror⟩ := Envelope.exists_slot_eq_error (by omega) hletter
    (schema.encode type.linked others)
  rw [← ht.encode_typed_short (Record.ne_empty_of_typeName? hname) (by omega)] at herror
  have hschema : codec.store.schema = .ok schema := hstore ▸ rfl
  have hrefused := fun (cipher : TagCipher) (registry : Registry) =>
    decodePredictive_of_slot_eq_error { codec with cipher } hschema herror registry
  exact ⟨(hrefused codec.cipher {}).1, error, fun cipher registry => (hrefused cipher registry).2⟩

end Codec

/-- A definition whose message name has 32 bytes, as many as a tag. -/
def longDefinitions : List RecordDefinition :=
  [{ id := "FacadeFacadeFacadeFacadeF", fields := [("size", { kind := .scalar .int32 })] }]

/-- The message name of that definition. -/
def longName : String := "FacadeFacadeFacadeFacadeFMessage"

/-- `toMessage` gives a record with nothing but its type the message with nothing but this type. -/
theorem RegisteredType.IsLoaded.toMessage_ofType {type : RegisteredType} {schema : Schema}
    (ht : type.IsLoaded schema) (strict : Bool) (text : String) :
    schema.toMessage type.linked strict (.ofType text) = .ok (FieldValues.typed text []) := by
  have hread : schema.fieldsOfJson? strict type.linked false [] [(typeField, .str text)] =
      some (FieldValues.typed text []) := by
    rw [fieldsOfJson?_cons_eq_bind, ht.setMember?_typeTag]
    rfl
  rw [toMessage_eq_ok_iff]
  show schema.valueOfJson? strict .single (.message type.name) (.obj [(typeField, .str text)]) = _
  rw [ht.valueOfJson?_obj, hread]
  rfl

/-- `longName` has 32 bytes, so that its plain bytes start with the header `0A 20` of an envelope; they are
refused all the same. -/
theorem Codec.decodePredictive_plain_longDefinitions : ∃ compiled, ∃ codec : Codec, ∃ plain,
    compile longDefinitions = .ok compiled ∧
      SchemaStore.loadText {} compiled.document.text = .ok codec.store ∧
      codec.encodeWith { verify := true, predictive := false } (.ofType longName) = .ok plain ∧
      plain.take 2 = Envelope.header ∧ Envelope.isEnvelope plain = false ∧
      ∃ error, codec.peekType plain = .error (.format (.envelope error)) ∧
        codec.decodePredictive plain compiled.registry = .error (.format (.envelope error)) := by
  have hcompiles : CompilesLinkable longDefinitions := by decide +kernel
  obtain ⟨compiled, codec, schema, h, hload, -, hstore, hl⟩ := hcompiles.exists_codec .builtIn
  have hnames : ((compile longDefinitions).toOption.map fun c => c.registry.names) = some [longName] := by
    decide +kernel
  rw [h, Except.toOption, Option.map_some, Option.some.injEq] at hnames
  have hcompiled : longName ∈ compiled.registry.names :=
    hnames ▸ List.mem_singleton_self _
  obtain ⟨type, -, hname, ht⟩ := hl.types _ hcompiled
  have htype : (Record.ofType longName).typeName? = some type.name := by
    rw [hname]
    decide +kernel
  have hencode : codec.encodeWith { verify := true, predictive := false } (.ofType longName) =
      .ok (schema.encode type.linked (FieldValues.typed longName [])) := by
    rw [encodeWith_eq hstore ht htype, if_neg Bool.false_ne_true]
    exact encodeRecord_eq_ok_iff.mpr ⟨_, ht.toMessage_ofType true _, rfl⟩
  obtain ⟨hnone, error, herror⟩ := Codec.decodePredictive_plain h hload (hname ▸ htype) hcompiled
    hencode
  refine ⟨compiled, codec, _, h, hload, hencode, ?_, hnone, error, herror codec.cipher compiled.registry⟩
  rw [ht.encode_typed_short (by decide) (by decide)]
  rfl

end Tagwire
