import Tagwire.Proofs.Codec.Envelope

/-!
# Envelopes of nothing but a tag

The shortest envelope of a type is the header and the tag.  It is decoded, whatever else the type declares,
as the message whose only field is the text of the tag: the record that it gives has this text and the
defaults of the fields without presence, and nothing else.
-/

set_option autoImplicit false

namespace Tagwire

/-- The envelope of 34 bytes that holds a tag and nothing else. -/
def Envelope.bare (tag : String) : Bytes := header ++ Bytes.ofString tag

/-- `peekType` reads off a bare envelope the name that its tag was encrypted from. -/
theorem Codec.peekType_bare {codec : Codec} {name tag : String} (h : codec.cipher.encrypt name = .ok tag) :
    codec.peekType (Envelope.bare tag) = .ok name := by
  have hpeek := Envelope.peek_header h []
  rw [List.append_nil] at hpeek
  unfold peekType Envelope.bare
  rw [hpeek]
  rfl

namespace Schema

variable {schema : Schema} {type : MessageType} {f : MessageField} {cipher : TagCipher} {name tag : String}

/-- `decode?` reads a bare envelope as the text of the tag under number 1, if the first field is a single
string. -/
theorem decode?_bare (hf : type.field? 1 = some f) (hshape : f.shape = .single)
    (htype : f.type = .scalar .string) (h : cipher.encrypt name = .ok tag) :
    schema.decode? type (Envelope.bare tag) = some [(1, .string tag)] := by
  have hnumber : f.number = 1 := MessageType.number_of_field? hf
  have hscalar : f.type.scalar? = some .string := by
    rw [htype]
    rfl
  have hshort : (Scalar.string.encode (.string tag)).length < 2 ^ 64 := by
    apply Scalar.length_encode_string_lt
    rw [TagCipher.utf8ByteSize_of_encrypt h]
    decide
  have hwrites : Writes schema (schema.nestedReader maxNesting) f .lengthDelimited
      (Scalar.string.encode (.string tag)) (.string tag) :=
    writes_scalar hscalar ⟨tag, rfl⟩ hshort
  have hvalue := hwrites []
  rw [List.append_nil] at hvalue
  have hset : ∀ value, type.setField f value [] = [(1, value)] := by
    intro value
    rw [← hnumber]
    rfl
  have hread : schema.readField (schema.nestedReader maxNesting) maxNesting type ⟨1, .lengthDelimited⟩ []
      (Scalar.string.encode (.string tag)) = some ([(1, .string tag)], []) := by
    have hnone : FieldValues.get? [] f.number = none := rfl
    rw [readField_eq_of_field? hf, readOver, hshape, hnone]
    dsimp only
    rw [hvalue, Option.map_some, hset]
  have hkey : WireKey.decode? (Envelope.bare tag) =
      some (⟨1, .lengthDelimited⟩, Scalar.string.encode (.string tag)) := by
    rw [Envelope.bare, Envelope.header_append h]
    exact WireKey.decode?_encode _ (by decide) (by decide) _
  have hlength : (Envelope.bare tag).length = Envelope.minLength - 1 + 1 := by
    rw [Envelope.bare, List.length_append, Bytes.length_ofString, TagCipher.utf8ByteSize_of_encrypt h]
    rfl
  -- Reading has steps for as many fields as there are bytes, and nothing is left behind the first one.
  rw [decode?, readMessage_eq, hlength, readFields_step hkey (by decide) hread]
  rfl

/-- `decodeRecord` of a bare envelope has the text of the tag under the record key of the first field, and a
default for every other field without presence. -/
theorem decodeRecord_bare (ht : type.IsOrdinary schema) (hf : type.field? 1 = some f)
    (hshape : f.shape = .single) (htype : f.type = .scalar .string) (h : cipher.encrypt name = .ok tag) :
    schema.decodeRecord type (Envelope.bare tag) = .ok
      ⟨Entries.ofList (schema.unsetMembers type [(1, .string tag)] ++ [(f.jsonName, .str tag)])⟩ := by
  have htext : schema.valueToJson? schema.unpackAny? f.type (.string tag) = some (.str tag) := by
    rw [htype]
    exact valueToJson?_scalar rfl
  have hshown : schema.fieldsToJson? schema.unpackAny? type [(1, .string tag)] =
      some [(f.jsonName, .str tag)] := by
    rw [fieldsToJson?, hf]
    dsimp only
    rw [htext, fieldsToJson?]
    rfl
  have hobject : schema.messageToJson? type [(1, .string tag)] =
      some (.ofMembers (schema.unsetMembers type [(1, .string tag)] ++ [(f.jsonName, .str tag)])) := by
    unfold messageToJson?
    rw [ht.valueToJson?_message, hshown]
    rfl
  rw [decodeRecord_eq, decode?_bare hf hshape htype h, Option.bind_some, hobject]
  rfl

end Schema

end Tagwire
