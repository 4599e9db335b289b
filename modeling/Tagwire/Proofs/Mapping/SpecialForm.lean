import Tagwire.Proofs.Hex
import Tagwire.Proofs.Codec.Conversion
import Tagwire.Proofs.Wire.Delimited

/-!
# Records as messages with a form of their own

A record of a type that goes by the name of a well-known message is brought into its layout and from there
into the fields of the type.  Of the layouts that an object can be brought into, one writes the address of a
type as its first field, one the entries of a structure, and the others nothing: should a type take its first
field for a text, then this text is not made of hexadecimal digits only.
-/

set_option autoImplicit false

namespace Tagwire

/-- One of the bytes is no hexadecimal digit. -/
def Hex.IsSpoilt (bytes : Bytes) : Prop := ∃ c ∈ bytes, value? c = none

open Schema

/-! ## Fields behind their length -/

section

variable {schema : Schema} {p : Nat → Bytes → Prop} {f : MessageField}

/-- A body in a field that is no group is written behind its length. -/
theorem delimited_encodeBody (hgrouped : f.grouped = false) (hpos : 0 < f.number)
    (hlt : f.number < 2 ^ 29) {body : Bytes} (hbody : p f.number body) : Delimited p (f.encodeBody body) := by
  rw [MessageField.encodeBody, hgrouped, if_neg Bool.false_ne_true, ← List.append_nil (lengthPrefixed body)]
  exact .cons hpos hlt hbody .nil

/-- A text or bytes in a field are written behind their length. -/
theorem delimited_encodeField (kind : Scalar) (hkind : f.type.scalar? = some kind)
    (hwire : kind.wireType = .lengthDelimited) (hpos : 0 < f.number) (hlt : f.number < 2 ^ 29) {value : Value}
    (hscalar : value.isScalar = true) {body : Bytes} (hvalue : kind.encode value = lengthPrefixed body)
    (hbody : p f.number body) : Delimited p (schema.encodeField f value) := by
  rw [encodeField_scalar hkind hscalar]
  split
  · exact Delimited.nil
  · rw [hwire, hvalue, ← List.append_nil (lengthPrefixed body)]
    exact .cons hpos hlt hbody .nil

end

namespace SpecialForm

/-! ## The layouts of objects -/

/-- The bytes are fields written behind their lengths, and the body of each field with number 1 has a byte that
is no hexadecimal digit. -/
def SpoilsFirst (bytes : Bytes) : Prop :=
  Delimited (fun number body => number = 1 → Hex.IsSpoilt body) bytes

/-- The address of a type has a slash, which is no hexadecimal digit. -/
theorem isSpoilt_address {address name : String} (h : nameOfTypeAddress? address = some name) :
    Hex.IsSpoilt (Bytes.ofString address) := by
  unfold nameOfTypeAddress? at h
  split at h
  · rename_i hslash
    obtain ⟨before, after, haddress⟩ := List.append_of_mem (List.contains_iff_mem.mp hslash)
    have hsplit : address = String.ofList before ++ ("/" ++ String.ofList after) := by
      rw [← String.ofList_toList (s := address), haddress, String.ofList_append, String.ofList_cons]
      rfl
    refine ⟨0x2F, ?_, by decide⟩
    rw [hsplit, Bytes.ofString_append, Bytes.ofString_append]
    exact List.mem_append_right _ (List.mem_append_left _ (by decide +kernel))
  · cases h

/-- The bytes of an `Any` spoil the first field, if its address has a byte that is no hexadecimal digit. -/
theorem delimited_any {address : String} (h : Hex.IsSpoilt (Bytes.ofString address)) (payload : Bytes) :
    SpoilsFirst (layouts.encode any.layout [(1, .string address), (2, .bytes payload)]) := by
  rw [encode, encode, encode, List.append_nil]
  refine Delimited.append ?_ ?_
  · exact delimited_encodeField (f := scalarField "type_url" 1 .string) .string rfl rfl
      (by decide) (by decide) rfl rfl fun _ => h
  · exact delimited_encodeField (f := scalarField "value" 2 .bytes) .bytes rfl rfl
      (by decide) (by decide) rfl rfl fun hone => absurd hone (by decide)

/-- An entry of a structure has a byte that is no hexadecimal digit: the key of its value, 0x12. -/
theorem isSpoilt_entry (key : String) (values : FieldValues) :
    Hex.IsSpoilt (layouts.encode entryLayout [(1, .string key), (2, .message values)]) := by
  refine ⟨0x12, ?_, by decide⟩
  have hkey : WireKey.encode ⟨2, .lengthDelimited⟩ = [0x12] := by
    show Varint.encode 18 = _
    rw [Varint.encode, if_pos (by decide)]
    rfl
  rw [encode, encode, encode, List.append_nil]
  refine List.mem_append_right _ ?_
  show _ ∈ layouts.encodeField _ _
  rw [encodeField_message value.layout rfl rfl, MessageField.encodeBody,
    if_neg Bool.false_ne_true, MessageField.key, hkey]
  exact List.mem_cons_self

/-- The entries of a structure spoil the first field. -/
theorem delimited_entries (members : List (String × Json)) :
    SpoilsFirst (layouts.encodeItems (messagesField "fields" 1 "Entry") (DynamicValue.ofMembers members)) := by
  induction members with
  | nil =>
    rw [DynamicValue.ofMembers, encodeItems]
    exact Delimited.nil
  | cons m rest ih =>
    rw [DynamicValue.ofMembers, encodeItems]
    refine Delimited.append ?_ ih
    rw [encodeField_message entryLayout rfl rfl]
    exact delimited_encodeBody rfl (by decide) (by decide) fun _ => isSpoilt_entry m.1 _

/-- The bytes of a `Struct` spoil the first field. -/
theorem delimited_struct (members : List (String × Json)) :
    SpoilsFirst (layouts.encode struct.layout [(1, .list (DynamicValue.ofMembers members))]) := by
  rw [encode, encode, List.append_nil]
  show SpoilsFirst (layouts.encodeField (messagesField "fields" 1 "Entry") _)
  rw [encodeField]
  split
  · exact Delimited.nil
  · exact delimited_entries members

/-- The bytes of a `Value` that is an object spoil the first field, since they have none. -/
theorem delimited_value (members : List (String × Json)) :
    SpoilsFirst (layouts.encode value.layout (DynamicValue.ofJson (.obj members))) := by
  rw [DynamicValue.ofJson, encode, encode, List.append_nil]
  show SpoilsFirst (layouts.encodeField (choiceField "struct_value" 5 (.message "Struct")) _)
  rw [encodeField_message struct.layout rfl rfl]
  exact delimited_encodeBody rfl (by decide) (by decide) fun hone => absurd hone (by decide)

/-- The bytes of what any special form reads an object as spoil the first field. -/
theorem delimited_of_ofJson? {form : SpecialForm} {members : List (String × Json)} {values : FieldValues}
    (h : form.ofJson? (.obj members) = some values) :
    SpoilsFirst (layouts.encode form.layout values) := by
  cases form with
  | struct =>
    cases h
    exact delimited_struct members
  | value =>
    cases h
    exact delimited_value members
  | empty =>
    cases members with
    | nil =>
      cases h
      rw [encode]
      exact Delimited.nil
    | cons m rest => cases h
  | wrapper kind =>
    obtain ⟨value, hvalue, -⟩ := Option.map_eq_some_iff.mp h
    cases kind <;> cases hvalue
  | any | timestamp | duration | fieldMask | listValue => cases h

end SpecialForm

/-- A record that `toMessage` reads as a message with a special form has no first field of text, or one that is
no hexadecimal number. -/
theorem firstText_of_toMessage {schema : Schema} {type : MessageType} {f : MessageField}
    (hmessage : schema.message? type.name = some type)
    (hspecial : SpecialForm.ofTypeName? type.name ≠ none) (hfound : type.field? 1 = some f) (hf : f.IsText)
    {strict : Bool} {record : Record} {values : FieldValues}
    (h : schema.toMessage type strict record = .ok values) : FirstText Hex.IsSpoilt values := by
  obtain ⟨form, hform⟩ := Option.ne_none_iff_exists'.mp hspecial
  rw [toMessage_eq_ok_iff, Record.toJson] at h
  by_cases hany : form = .any
  · subst hany
    rw [valueOfJson?_any hmessage hform] at h
    simp only [Option.bind_eq_some_iff] at h
    obtain ⟨address, -, payload, ⟨name, hname, -⟩, fields, -, hstore⟩ := h
    obtain ⟨stored, hstored, hresult⟩ := Option.map_eq_some_iff.mp hstore
    cases hresult
    exact firstText_of_decode? hfound hf
      (SpecialForm.delimited_any (SpecialForm.isSpoilt_address hname) _) hstored
  · rw [valueOfJson?_form hmessage hform hany] at h
    obtain ⟨stored, hstored, hresult⟩ := Option.map_eq_some_iff.mp h
    obtain ⟨laidOut, hlaidOut, hstored⟩ := Option.bind_eq_some_iff.mp hstored
    cases hresult
    exact firstText_of_decode? hfound hf (SpecialForm.delimited_of_ofJson? hlaidOut) hstored

end Tagwire
