import Tagwire.Proofs.Codec.Envelope

/-!
# Envelopes frame what plain bytes hold

The envelope of a record is its plain bytes with the tag in the place of the name: the first field is the
text of the type in both, and everything behind it is the same.  An envelope is therefore made wherever
plain bytes are, unless the name is too long for a tag; and since this is looked at before the cipher is
asked for a tag, the cipher has no reason to refuse.
-/

set_option autoImplicit false

namespace Tagwire

open Schema

/-! ## Errors -/

/-- The step does not fail with an error of the cipher. -/
def SparesCipher {α : Type} (step : Except CodecError α) : Prop := ∀ error, step ≠ .error (.cipher error)

/-- Two steps one behind the other spare the cipher if each of them does. -/
theorem SparesCipher.bind {α β : Type} {step : Except CodecError α} {next : α → Except CodecError β}
    (h : SparesCipher step) (hnext : ∀ a, step = .ok a → SparesCipher (next a)) :
    SparesCipher (step >>= next) := by
  intro error herror
  cases step with
  | error e => exact h error (congrArg _ (Except.error.inj herror))
  | ok a => exact hnext a rfl error herror

/-- `toMessage` fails with a `violation` only. -/
theorem Schema.sparesCipher_toMessage (schema : Schema) (type : MessageType) (strict : Bool)
    (record : Record) : SparesCipher (schema.toMessage type strict record) := by
  intro error herror
  unfold toMessage at herror
  split at herror <;> cases herror

/-- `encodeRecord` fails where `toMessage` does. -/
theorem Schema.sparesCipher_encodeRecord (schema : Schema) (type : MessageType) (strict : Bool)
    (record : Record) : SparesCipher (schema.encodeRecord type strict record) := by
  unfold encodeRecord
  apply (sparesCipher_toMessage schema type strict record).bind
  intro values _ error herror
  cases herror

/-- `find` fails with `notCompiled` or `typeNotFound`. -/
theorem SchemaStore.sparesCipher_find (store : SchemaStore) (name : String) :
    SparesCipher (store.find name) := by
  unfold find
  refine SparesCipher.bind (fun error herror => ?_) fun schema _ error herror => ?_
  · unfold SchemaStore.schema at herror
    split at herror <;> cases herror
  · split at herror <;> cases herror

namespace Codec

/-- `encodeEnvelope` refuses a name of more than `maxTagNameBytes` bytes before it asks the cipher, and the
cipher accepts all others. -/
theorem sparesCipher_encodeEnvelope (codec : Codec) (schema : Schema) (type : MessageType) (name : String)
    (record : Record) : SparesCipher (codec.encodeEnvelope schema type name record) := by
  unfold encodeEnvelope
  by_cases hlong : maxTagNameBytes < name.utf8ByteSize
  · rw [if_pos hlong]
    exact fun error herror => (by cases herror)
  · rw [if_neg hlong]
    split
    · exact fun error herror => (by cases herror)
    · obtain ⟨tag, htag⟩ := codec.cipher.exists_encrypt name (not_lt.mp hlong)
      rw [htag]
      exact sparesCipher_encodeRecord schema type false _

/-- `encodeWith` never fails with an error of the cipher. -/
theorem sparesCipher_encodeWith (codec : Codec) (options : EncodeOptions) (record : Record) :
    SparesCipher (codec.encodeWith options record) := by
  unfold encodeWith
  refine SparesCipher.bind ?_ fun _ _ => SparesCipher.bind ?_ fun name _ =>
    (codec.store.sparesCipher_find name).bind fun found _ => ?_
  · intro error herror
    unfold SchemaStore.schema at herror
    split at herror <;> cases herror
  · intro error herror
    unfold typeOf at herror
    split at herror <;> cases herror
  · obtain ⟨schema, type⟩ := found
    dsimp only
    split
    · split
      · exact (sparesCipher_toMessage schema type true record).bind fun _ _ =>
          codec.sparesCipher_encodeEnvelope schema type name record
      · exact codec.sparesCipher_encodeEnvelope schema type name record
    · exact sparesCipher_encodeRecord schema type options.verify record

end Codec

/-! ## Bytes -/

/-- The bytes of a message with a text of fewer than 128 bytes for its type are `0A`, the length of the text,
the text, and the bytes of the other fields. -/
theorem RegisteredType.IsLoaded.encode_typed_short {schema : Schema} {type : RegisteredType}
    (ht : type.IsLoaded schema) {text : String} (hne : text ≠ "") (hshort : text.utf8ByteSize < 128)
    (others : FieldValues) : schema.encode type.linked (FieldValues.typed text others) =
      0x0A :: UInt8.ofNat text.utf8ByteSize :: (Bytes.ofString text ++ schema.encode type.linked others) := by
  have hkey : RegisteredField.typeTag.linked.key .lengthDelimited = [0x0A] := by
    rw [RegisteredField.linked_typeTag]
    show Varint.encode 10 = _
    rw [Varint.encode, if_pos (by decide)]
    rfl
  rw [ht.encode_typed hne, hkey, Scalar.encode_string hshort]
  rfl

/-- `encodeWith` gives a record of a compiled type an envelope exactly when it gives it plain bytes and the name
of the type has at most 15 bytes.  The plain bytes start with `0A`, the length of the name and the name; the
envelope starts with `0A 20` and the 32 digits of its tag, and what follows is the same in both. -/
theorem Codec.encodeWith_predictive_iff {definitions : List RecordDefinition} {compiled : CompiledSchema}
    (h : compile definitions = .ok compiled) {codec : Codec}
    (hload : SchemaStore.loadText {} compiled.document.text = .ok codec.store) {record : Record}
    {name : String} (hname : record.typeName? = some name)
    (hcompiled : name ∈ compiled.registry.names) (verify : Bool) :
    ((∃ envelope, codec.encodeWith { verify, predictive := true } record = .ok envelope) ↔
        (∃ plain, codec.encodeWith { verify, predictive := false } record = .ok plain) ∧
          name.utf8ByteSize ≤ maxTagNameBytes) ∧
      (∀ envelope plain, codec.encodeWith { verify, predictive := true } record = .ok envelope →
        codec.encodeWith { verify, predictive := false } record = .ok plain →
        ∃ tag rest, codec.cipher.encrypt name = .ok tag ∧ (Bytes.ofString tag).length = 32 ∧
          (∀ c ∈ Bytes.ofString tag, Hex.isLowerDigit c = true) ∧
          plain = 0x0A :: UInt8.ofNat name.utf8ByteSize :: (Bytes.ofString name ++ rest) ∧
          envelope = 0x0A :: 0x20 :: (Bytes.ofString tag ++ rest)) ∧
      ∀ error, codec.encodeWith { verify, predictive := true } record ≠ .error (.cipher error) := by
  obtain ⟨schema, hstore, hl⟩ := CompiledSchema.exists_isLoaded_of_loadText h hload
  obtain ⟨type, -, rfl, ht⟩ := hl.types name hcompiled
  have hmax : maxTagNameBytes = 15 := rfl
  -- Both ask for the message of the record, which the tag or the name of the type then starts.
  have henvelope : ∀ bytes, codec.encodeWith { verify, predictive := true } record = .ok bytes ↔
      ∃ tag others, codec.cipher.encrypt type.name = .ok tag ∧
        schema.toMessage type.linked verify record = .ok (FieldValues.typed type.name others) ∧
        schema.encode type.linked (FieldValues.typed tag others) = bytes :=
    fun bytes => encodeWith_predictive_eq_ok_iff hstore ht hname
  have hplain : ∀ bytes, codec.encodeWith { verify, predictive := false } record = .ok bytes ↔
      ∃ values, schema.toMessage type.linked verify record = .ok values ∧
        schema.encode type.linked values = bytes := by
    intro bytes
    rw [encodeWith_eq hstore ht hname, if_neg Bool.false_ne_true]
    exact encodeRecord_eq_ok_iff
  refine ⟨⟨?_, ?_⟩, ?_, codec.sparesCipher_encodeWith _ record⟩
  · rintro ⟨envelope, hencode⟩
    obtain ⟨tag, others, htag, hmessage, -⟩ := (henvelope envelope).mp hencode
    exact ⟨⟨_, (hplain _).mpr ⟨_, hmessage, rfl⟩⟩, (TagCipher.encrypt_eq_ok_iff.mp htag).1⟩
  · rintro ⟨⟨plain, hencode⟩, hshort⟩
    obtain ⟨values, hmessage, -⟩ := (hplain plain).mp hencode
    obtain ⟨others?, hothers⟩ := ht.exists_toMessage_typed hname verify
    have htyped := hmessage
    rw [← Record.withType_eq (Record.get?_typeField hname), hothers, Option.map_eq_some_iff] at htyped
    obtain ⟨others, -, rfl⟩ := htyped
    obtain ⟨tag, htag⟩ := codec.cipher.exists_encrypt type.name hshort
    exact ⟨_, (henvelope _).mpr ⟨tag, others, htag, hmessage, rfl⟩⟩
  · intro envelope plain hencode hencode'
    obtain ⟨tag, others, htag, hmessage, rfl⟩ := (henvelope envelope).mp hencode
    obtain ⟨values, hmessage', rfl⟩ := (hplain plain).mp hencode'
    rw [hmessage, Except.ok.injEq] at hmessage'
    subst hmessage'
    have hshort := (TagCipher.encrypt_eq_ok_iff.mp htag).1
    have hsize := TagCipher.utf8ByteSize_of_encrypt htag
    refine ⟨tag, schema.encode type.linked others, htag, (Bytes.length_ofString tag).trans hsize,
      TagCipher.isLowerDigit_of_encrypt htag, ?_, ?_⟩
    · exact ht.encode_typed_short (Record.ne_empty_of_typeName? hname) (by omega) others
    · rw [ht.encode_typed_short (TagCipher.ne_empty_of_encrypt htag) (by rw [hsize]; decide), hsize]
      rfl

/-- The plain bytes and the envelope of `looseNodeRecord` differ in their first field only. -/
theorem Codec.encodeWith_predictive_iff_looseNodeRecord : ∃ compiled, ∃ codec : Codec,
    compile nodeDefinitions = .ok compiled ∧
      SchemaStore.loadText {} compiled.document.text = .ok codec.store ∧
      ∃ plain envelope tag rest,
        codec.encodeWith { verify := false, predictive := false } looseNodeRecord = .ok plain ∧
        codec.encodeWith { verify := false, predictive := true } looseNodeRecord = .ok envelope ∧
        codec.cipher.encrypt "NodeMessage" = .ok tag ∧
        plain = 0x0A :: 11 :: (Bytes.ofString "NodeMessage" ++ rest) ∧
        envelope = 0x0A :: 0x20 :: (Bytes.ofString tag ++ rest) := by
  obtain ⟨compiled, codec, schema, node, h, hload, hstore, -, hnode, hnodeName, hfields, ht⟩ :=
    exists_nodeCodec
  have hname : looseNodeRecord.typeName? = some "NodeMessage" := by decide
  have hplain : codec.encodeWith { verify := false, predictive := false } looseNodeRecord =
      .ok (schema.encode node.linked (FieldValues.typed "NodeMessage" [])) := by
    rw [encodeWith_eq hstore ht (hnodeName ▸ hname), if_neg Bool.false_ne_true]
    exact encodeRecord_eq_ok_iff.mpr ⟨_, toMessage_looseNodeRecord ht hfields, rfl⟩
  obtain ⟨hiff, hframe, -⟩ := Codec.encodeWith_predictive_iff h hload hname
    (Registry.mem_names_of_get? hnode) false
  obtain ⟨envelope, henvelope⟩ := hiff.mpr ⟨⟨_, hplain⟩, by decide⟩
  obtain ⟨tag, rest, htag, -, -, hbytes, hbytes'⟩ := hframe _ _ henvelope hplain
  exact ⟨compiled, codec, h, hload, _, envelope, tag, rest, hplain, henvelope, htag, hbytes, hbytes'⟩

end Tagwire
