import Tagwire.Proofs.Codec.Presence
import Tagwire.Proofs.Mapping.FirstField
import Tagwire.Proofs.Mapping.SpecialForm

/-!
# Where the tag of an envelope ends up

To encode a record as an envelope, its type is replaced by the tag, and what comes out is an envelope if the
tag reaches the first field.  That this field is a text with the name of the type is not enough for that: its
record key may be another one, so that a later member takes the place of the tag or the tag goes into another
field, and a type that goes by the name of a well-known message with a form of its own is not written field by
field at all.
-/

set_option autoImplicit false

namespace Tagwire

/-! ## The slot of a message -/

namespace MessageType

/-- A type with `hasTypeTag` has a single string with the name `type` for field 1. -/
theorem exists_isText_of_hasTypeTag {type : MessageType} (hformed : ∀ f ∈ type.fields, f.IsFormed)
    (h : type.hasTypeTag = true) :
    ∃ f, type.field? 1 = some f ∧ f.IsFormed ∧ f.IsText ∧ f.name = typeField := by
  unfold hasTypeTag at h
  split at h
  · rename_i f hfound
    simp only [Bool.and_eq_true, beq_iff_eq, bne_iff_ne] at h
    obtain ⟨⟨hname, hscalar⟩, hlist⟩ := h
    have hf := hformed f (List.mem_of_find?_eq_some hfound)
    have hmap := hf.shape_ne_map _ hscalar
    refine ⟨f, hfound, hf, ⟨hscalar, ?_⟩, hname⟩
    cases hshape : f.shape with
    | single => rfl
    | list => exact absurd hshape hlist
    | map => exact absurd hshape hmap
  · cases h

end MessageType

/-- `encodeField` writes a text in field 1 behind `0A` and its length, unless it is left out for being the
default. -/
theorem Schema.encodeField_first {schema : Schema} {f : MessageField} (hnumber : f.number = 1)
    (hf : f.IsText) (text : String) : schema.encodeField f (.string text) =
      if f.omits (.string text) then []
      else WireKey.encode ⟨1, .lengthDelimited⟩ ++ Scalar.string.encode (.string text) := by
  have hscalar : f.type.scalar? = some .string := by rw [hf.type]; rfl
  rw [encodeField_scalar hscalar rfl, MessageField.key, hnumber]
  rfl

/-- If bytes that begin with a text in field 1 are `header`, 32 digits and anything else, then the text is these
digits. -/
theorem Envelope.eq_of_header_append {text : String} {digits rest more : Bytes}
    (hlength : digits.length = tagLength)
    (h : WireKey.encode ⟨1, .lengthDelimited⟩ ++ Scalar.string.encode (.string text) ++ rest =
      header ++ (digits ++ more)) : Bytes.ofString text = digits := by
  obtain ⟨b, left, hlead, hsmall⟩ := Varint.exists_encode_eq_cons (Bytes.ofString text).length
  have htext : Scalar.string.encode (.string text) = b :: (left ++ Bytes.ofString text) := by
    show Varint.encode (Bytes.ofString text).length ++ Bytes.ofString text = _
    rw [hlead]
    rfl
  rw [WireKey.encode_first, htext] at h
  have hbody : b :: (left ++ Bytes.ofString text ++ rest) = UInt8.ofNat tagLength :: (digits ++ more) :=
    (List.cons.inj h).2
  obtain ⟨rfl, htail⟩ := List.cons.inj hbody
  obtain ⟨hsize, rfl⟩ := hsmall (by decide)
  exact (List.append_inj htail (hsize.symm.trans hlength.symm)).1

/-- The slot of the bytes of a message holds a tag if and only if the text in field 1 is this tag. -/
theorem Schema.slot_encode_iff {schema : Schema} {type : MessageType} {f : MessageField}
    (hformed : ∀ g ∈ type.fields, g.IsFormed) (hfound : type.field? 1 = some f) (hf : f.IsText)
    {p : Bytes → Prop} {values : FieldValues} (hvalues : FirstText p values) {cipher : TagCipher}
    {name tag : String} (htag : cipher.encrypt name = .ok tag) :
    Envelope.slot (schema.encode type values) = .ok (Bytes.ofString tag) ↔
      FieldValues.get? values 1 = some (.string tag) := by
  have hnumber : f.number = 1 := MessageType.number_of_field? hfound
  obtain ⟨rest, hskips, hbytes⟩ := schema.exists_encode_eq
    (fun g hg => (hformed g hg).number_pos) hfound hvalues.sorted
  constructor
  · intro hslot
    obtain ⟨more, hslot, hlength, -⟩ := Envelope.slot_eq_ok_iff.mp hslot
    -- Were the first field not written, what is would begin with another byte.
    have hwritten : rest ≠ Envelope.header ++ (Bytes.ofString tag ++ more) := fun hrest =>
      hskips (by rw [hrest]; rfl)
    rw [hbytes] at hslot
    cases hget : FieldValues.get? values 1 with
    | none =>
      rw [hget] at hslot
      exact absurd hslot hwritten
    | some value =>
      obtain ⟨text, rfl, -⟩ := hvalues.text value hget
      rw [hget] at hslot
      dsimp only at hslot
      rw [encodeField_first hnumber hf] at hslot
      split at hslot
      · exact absurd hslot hwritten
      · rw [Bytes.ofString_injective (Envelope.eq_of_header_append hlength hslot)]
  · intro hget
    have homits : f.omits (.string tag) = false := by
      obtain ⟨text, hdefault, hempty⟩ := (hformed f (List.mem_of_find?_eq_some hfound)).default hf
      rw [MessageField.omits, hdefault]
      cases hpresence : f.presence with
      | true => rfl
      | false =>
        rw [hempty hpresence]
        exact beq_eq_false_iff_ne.mpr (TagCipher.ne_empty_of_encrypt htag).symm
    rw [hbytes, hget]
    dsimp only
    rw [encodeField_first hnumber hf, homits, if_neg Bool.false_ne_true, ← Envelope.header_append htag,
      List.append_assoc, Envelope.slot_header htag]

/-- `peekType` reads a tag in the slot as the name that it was encrypted from. -/
theorem Codec.peekType_of_slot {codec : Codec} {name tag : String} {bytes : Bytes}
    (htag : codec.cipher.encrypt name = .ok tag)
    (h : Envelope.slot bytes = .ok (Bytes.ofString tag)) : codec.peekType bytes = .ok name := by
  obtain ⟨rest, rfl, -⟩ := Envelope.slot_eq_ok_iff.mp h
  rw [peekType, Envelope.peek_header htag]
  rfl

namespace Codec

open Schema

variable {codec : Codec} {record : Record} {bytes : Bytes}

/-- An envelope that `encodeWith` gives is the message of its record with the tag of the name, for a type with
`hasTypeTag`. -/
theorem exists_of_encodeWith_predictive {verify : Bool}
    (h : codec.encodeWith { verify, predictive := true } record = .ok bytes) :
    ∃ name tag schema type values, record.typeName? = some name ∧
      codec.store.find name = .ok (schema, type) ∧ type.hasTypeTag = true ∧
      codec.cipher.encrypt name = .ok tag ∧
      schema.toMessage type false (record.withType tag) = .ok values ∧ schema.encode type values = bytes := by
  unfold encodeWith at h
  obtain ⟨own, -, h⟩ := bind_eq_ok_iff.mp h
  obtain ⟨name, hname, h⟩ := bind_eq_ok_iff.mp h
  obtain ⟨⟨schema, type⟩, hfind, h⟩ := bind_eq_ok_iff.mp h
  have hown : record.typeName? = some name := by
    unfold typeOf at hname
    split at hname <;> cases hname
    assumption
  have henvelope : codec.encodeEnvelope schema type name record = .ok bytes := by
    dsimp only at h
    rw [if_pos rfl] at h
    cases verify with
    | false => exact h
    | true =>
      rw [if_pos rfl] at h
      obtain ⟨values, -, h⟩ := bind_eq_ok_iff.mp h
      exact h
  unfold encodeEnvelope at henvelope
  split at henvelope
  · cases henvelope
  · split at henvelope
    · cases henvelope
    · rename_i htyped
      obtain ⟨tag, htag, henvelope⟩ := bind_eq_ok_iff.mp henvelope
      obtain ⟨values, hvalues, hbytes⟩ := Schema.encodeRecord_eq_ok_iff.mp henvelope
      exact ⟨name, tag, schema, type, values, hown, hfind, by simpa using htyped,
        mapError_eq_ok_iff.mp htag, hvalues, hbytes⟩

/-- The message of a record whose type is a tag has this tag in field 1 if and only if the type has no JSON form
of its own and the record puts the tag there (`TakesType`). -/
theorem get?_one_of_toMessage {schema : Schema} {type : MessageType} {f : MessageField} {name tag : String}
    (hmessage : schema.message? type.name = some type) (hlinked : type.IsLinked)
    (hfound : type.field? 1 = some f) (hformed : f.IsFormed) (hf : f.IsText) (hname : f.name = typeField)
    (htag : codec.cipher.encrypt name = .ok tag) {values : FieldValues}
    (h : schema.toMessage type false (record.withType tag) = .ok values) :
    (∃ p, FirstText p values) ∧ (FieldValues.get? values 1 = some (.string tag) ↔
      SpecialForm.ofTypeName? type.name = none ∧ type.TakesType record tag) := by
  by_cases hspecial : SpecialForm.ofTypeName? type.name = none
  · rw [Schema.toMessage_eq_ok_iff, Record.toJson, Schema.valueOfJson?_ordinary hmessage hspecial] at h
    obtain ⟨read, hread, hresult⟩ := Option.map_eq_some_iff.mp h
    cases hresult
    obtain ⟨htakes, htext⟩ := Schema.get?_one_of_fieldsOfJson? hlinked hfound hf hformed hname hread
    refine ⟨⟨fun _ => True, Schema.isSorted_of_fieldsOfJson? (by simp [Assoc.IsSorted]) hread, ?_⟩, ?_⟩
    · intro value hvalue
      obtain ⟨s, hs⟩ := htext value hvalue
      exact ⟨s, hs, trivial⟩
    · rw [htakes, and_iff_right hspecial]
  · have hspoilt := firstText_of_toMessage hmessage hspecial hfound hf h
    refine ⟨⟨_, hspoilt⟩, iff_of_false (fun hget => ?_) fun hboth => hspecial hboth.1⟩
    -- A tag is made of hexadecimal digits.
    obtain ⟨s, hvalue, c, hc, hnone⟩ := hspoilt.text _ hget
    obtain ⟨digits, -, hdigits, -, hhex⟩ := TagCipher.exists_digits_of_encrypt htag
    obtain rfl : tag = s := Value.string.inj hvalue
    have hsome := hhex c (hdigits ▸ hc)
    rw [hnone] at hsome
    cases hsome

/-- Over a filled store, let `encodeWith` give predictive bytes for a record.  `peekType` reads the type of the
record off them if and only if the message type has no JSON form of its own and the record puts the tag into the
first field (`TakesType`): no member with a later key has taken its place, unless it says the tag too. -/
theorem encodeWith_predictive_slot_iff (hfilled : codec.store.IsFilled) {verify : Bool}
    (h : codec.encodeWith { verify, predictive := true } record = .ok bytes) :
    ∃ name tag schema type, record.typeName? = some name ∧ codec.cipher.encrypt name = .ok tag ∧
      codec.store.find name = .ok (schema, type) ∧
      (Envelope.slot bytes = .ok (Bytes.ofString tag) ∧ codec.peekType bytes = .ok name ↔
        SpecialForm.ofTypeName? type.name = none ∧ type.TakesType record tag) := by
  obtain ⟨name, tag, own, type, values, hname, hfind, htyped, htag, hvalues, rfl⟩ :=
    exists_of_encodeWith_predictive h
  obtain ⟨schema, hstore, hlinked, hformed⟩ := hfilled.exists_isFormed
  obtain ⟨rfl, hfound⟩ := find?_of_find hstore hfind
  obtain ⟨hmessage, -⟩ := hlinked.of_find? hfound
  have hfields := hformed _ (Entries.mem_of_get?_eq_some hmessage)
  obtain ⟨f, hfirst, hf, htext, hkey⟩ := MessageType.exists_isText_of_hasTypeTag hfields htyped
  obtain ⟨⟨p, hfirstText⟩, htakes⟩ := get?_one_of_toMessage hmessage (hlinked.of_message? hmessage).2.2
    hfirst hf htext hkey htag hvalues
  refine ⟨name, tag, own, type, hname, htag, hfind, ?_⟩
  rw [← htakes, ← Schema.slot_encode_iff hfields hfirst htext hfirstText htag]
  exact and_iff_left_of_imp (peekType_of_slot htag)

/-- The first field of the type of `optionalText` has the record key `type`, so that `peekType` reads the type
off the bytes. -/
theorem encodeWith_predictive_slot_iff_optionalText : ∃ codec record bytes name tag schema type,
    SchemaStore.loadText {} optionalText = .ok (Codec.store codec) ∧
      codec.encodeWith { verify := true, predictive := true } record = .ok bytes ∧
      record.typeName? = some name ∧ codec.cipher.encrypt name = .ok tag ∧
      codec.store.find name = .ok (schema, type) ∧ SpecialForm.ofTypeName? type.name = none ∧
      type.TakesType record tag ∧ Envelope.slot bytes = .ok (Bytes.ofString tag) ∧
      codec.peekType bytes = .ok name := by
  let record : Record := ⟨[("type", .str "T"), ("x", .int 3)], by decide⟩
  have hencodes : ((ofFiles? [optionalFile]).any fun schema =>
      ((encodeWith ⟨⟨some schema⟩, .builtIn, true⟩ { verify := true, predictive := true }
          record).toOption).isSome &&
        (schema.find? "T").any fun type => (SpecialForm.ofTypeName? type.name).isNone &&
          (type.field? 1).any fun f => f.jsonName == typeField) = true := by
    decide +kernel
  obtain ⟨schema, hschema, hencodes⟩ := (Option.any_eq_true _ _).mp hencodes
  rw [Bool.and_eq_true] at hencodes
  obtain ⟨bytes, hbytes⟩ := Option.isSome_iff_exists.mp hencodes.1
  obtain ⟨type, htype, hfirst⟩ := (Option.any_eq_true _ _).mp hencodes.2
  rw [Bool.and_eq_true, Option.isNone_iff_eq_none] at hfirst
  obtain ⟨f, hfound, hkey⟩ := (Option.any_eq_true _ _).mp hfirst.2
  have htext := ofText?_optionalText.trans hschema
  have hload : SchemaStore.loadText {} optionalText = .ok ⟨some schema⟩ :=
    SchemaStore.loadText_eq_ok_iff.mpr ⟨schema, htext, rfl⟩
  have hencode := toOption_eq_some_iff.mp hbytes
  obtain ⟨name, tag, own, found, hname, htag, hfind, hiff⟩ :=
    encodeWith_predictive_slot_iff (.text hload) hencode
  obtain rfl : "T" = name := Option.some.inj hname
  obtain ⟨rfl, hfound'⟩ := find?_of_find rfl hfind
  obtain rfl : type = found := Option.some.inj (htype.symm.trans hfound')
  have hlinked := isLinked_of_ofText? htext
  have htakes := ((hlinked.of_message? (hlinked.of_find? htype).1).2.2).takesType hfound
    (beq_iff_eq.mp hkey) record tag
  obtain ⟨hslot, hpeek⟩ := hiff.mpr ⟨hfirst.1, htakes⟩
  exact ⟨⟨⟨some own⟩, .builtIn, true⟩, record, bytes, "T", tag, own, type, hload, hencode, hname,
    htag, hfind, hfirst.1, htakes, hslot, hpeek⟩

end Codec

/-! ## A first field under another record key -/

/-- A document whose one type `T` gives its field `type` the JSON name `zone`. -/
def zonedText : String :=
  "syntax = \"proto3\"; message T \x7b string type = 1 [json_name = \"zone\"]; \x7d"

/-- The document that `zonedText` writes. -/
def zonedFile : Schema.SchemaFile :=
  { path := Schema.inlineDocumentName
    declarations :=
      { messages :=
          [{ name := "T"
             fields :=
               [{ name := "type", number := 1, type := .scalar .string
                  options :=
                    [{ path := [.plain "json_name"], value := .text (Bytes.ofString "zone") }] }] }] } }

/-- A record of type `T` with a member `zone`, which addresses the same field as `type`. -/
def zonedRecord : Record := ⟨[("type", .str "T"), ("zone", .str "x")], by decide⟩

namespace Schema

/-- `zonedText` is read as `zonedFile`. -/
theorem file_zonedText : SchemaFile.ofText? inlineDocumentName zonedText = some zonedFile :=
  SchemaFile.ofText?_of_message [] "T"
    [[.word "string", .word "type", .mark '=', .natural 1, .mark '[', .word "json_name", .mark '=',
      .text (Bytes.ofString "zone"), .mark ']']]
    (by decide +kernel) rfl rfl rfl

/-- The schema of `zonedText` is linked from `zonedFile` alone. -/
theorem ofText?_zonedText : Schema.ofText? zonedText = ofFiles? [zonedFile] :=
  ofText?_eq_ofFiles? rfl file_zonedText

end Schema

/-- The first field of the type of `zonedText` has the JSON name `zone`.  `zonedRecord` is verified and encoded,
but its member `zone` has taken the place of the tag: the bytes are `0A 01 78`, and `peekType` reads no type off
them. -/
theorem Codec.encodeWith_predictive_zonedText : ∃ codec record tag bytes,
    SchemaStore.loadText {} zonedText = .ok (Codec.store codec) ∧
      record.typeName? = some "T" ∧ codec.cipher.encrypt "T" = .ok tag ∧
      codec.encodeWith { verify := true, predictive := true } record = .ok bytes ∧
      Envelope.slot bytes ≠ .ok (Bytes.ofString tag) ∧ codec.peekType bytes ≠ .ok "T" := by
  have hencodes : ((Schema.ofFiles? [zonedFile]).any fun schema =>
      (encodeWith ⟨⟨some schema⟩, .builtIn, true⟩ { verify := true, predictive := true }
        zonedRecord).toOption == some [0x0A, 0x01, 0x78]) = true := by
    decide +kernel
  obtain ⟨schema, hschema, hencodes⟩ := (Option.any_eq_true _ _).mp hencodes
  have hencode := toOption_eq_some_iff.mp (beq_iff_eq.mp hencodes)
  have hload : SchemaStore.loadText {} zonedText = .ok ⟨some schema⟩ :=
    SchemaStore.loadText_eq_ok_iff.mpr ⟨schema, Schema.ofText?_zonedText.trans hschema, rfl⟩
  obtain ⟨tag, htag⟩ := TagCipher.builtIn.exists_encrypt "T" (by decide)
  refine ⟨⟨⟨some schema⟩, .builtIn, true⟩, zonedRecord, tag, _, hload, by decide, htag, hencode,
    ?_, ?_⟩
  · intro hslot
    cases hslot
  · intro hpeek
    cases hpeek

end Tagwire
