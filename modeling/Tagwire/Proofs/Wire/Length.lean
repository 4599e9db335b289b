import Mathlib.Algebra.Order.BigOperators.Group.List
import Mathlib.Algebra.Order.Ring.Nat
import Mathlib.Data.String.Basic
import Tagwire.Proofs.Wire.Typing

/-!
# How long bytes are

A number takes ten bytes at most, and so does a length that fits sixty-four bits.  What a field adds to the
bytes of a message are its key, its length and what it holds.
-/

set_option autoImplicit false

namespace Tagwire

/-- A natural below `128 ^ (count + 1)` takes at most `count + 1` bytes as a varint. -/
theorem Varint.length_encode_le (count n : Nat) (h : n < 128 ^ (count + 1)) :
    (encode n).length ≤ count + 1 := by
  induction count generalizing n with
  | zero =>
    have hn : n < 128 := by simpa using h
    rw [encode, if_pos hn]
    exact Nat.le_refl _
  | succ count ih =>
    rw [encode]
    split
    · exact Nat.succ_le_succ (Nat.zero_le _)
    · have hhigh : n / 128 < 128 ^ (count + 1) := by
        rw [Nat.div_lt_iff_lt_mul (by decide)]
        rwa [pow_succ] at h
      exact Nat.succ_le_succ (ih _ hhigh)

/-- A natural below `2 ^ 64` takes at most 10 bytes as a varint. -/
theorem Varint.length_encode_le_ten {n : Nat} (h : n < 2 ^ 64) : (encode n).length ≤ 10 :=
  length_encode_le 9 n (h.trans (by decide))

/-- A body below `2 ^ 64` bytes takes at most 10 more behind its length. -/
theorem length_lengthPrefixed_le {body : Bytes} (h : body.length < 2 ^ 64) :
    (lengthPrefixed body).length ≤ body.length + 10 := by
  have := Varint.length_encode_le_ten h
  rw [lengthPrefixed, List.length_append]
  omega

/-- A text takes at most 4 bytes for each character. -/
theorem Bytes.length_ofString_le (text : String) : (Bytes.ofString text).length ≤ 4 * text.length := by
  have hlist : ∀ cs : List Char, String.utf8Len cs ≤ 4 * cs.length := by
    intro cs
    induction cs with
    | nil => exact Nat.zero_le _
    | cons c rest ih =>
      have := c.utf8Size_le_four
      rw [String.utf8Len_cons, List.length_cons]
      omega
  have h := hlist text.toList
  rwa [← String.utf8ByteSize_ofList, String.ofList_toList, String.length_toList, ← length_ofString] at h

/-- The key of a wired field takes at most 10 bytes. -/
theorem MessageField.IsWired.length_key_le {f : MessageField} (h : f.IsWired) (type : WireType) :
    (f.key type).length ≤ 10 := by
  have hcode := type.code_lt
  have hnumber := h.lt
  exact Varint.length_encode_le_ten (by dsimp only; omega)

/-- A body takes at most 20 bytes more in a wired field, be this a key and a length or the two keys of a
group. -/
theorem MessageField.IsWired.length_encodeBody_le {f : MessageField} (h : f.IsWired) {body : Bytes}
    (hbody : body.length < 2 ^ 64) : (f.encodeBody body).length ≤ body.length + 20 := by
  rw [MessageField.encodeBody]
  split
  · have hstart := h.length_key_le .startGroup
    have hend := h.length_key_le .endGroup
    rw [List.length_append, List.length_append]
    omega
  · have hkey := h.length_key_le .lengthDelimited
    have hprefixed := length_lengthPrefixed_le hbody
    rw [List.length_append]
    omega

/-- A body takes no fewer bytes in a field than alone. -/
theorem MessageField.length_le_length_encodeBody (f : MessageField) (body : Bytes) :
    body.length ≤ (f.encodeBody body).length := by
  rw [MessageField.encodeBody]
  split
  · rw [List.length_append, List.length_append]
    omega
  · have hprefixed := length_lt_lengthPrefixed body
    rw [List.length_append]
    omega

namespace Schema

variable {schema : Schema} {type : MessageType} {f : MessageField}

/-- The bytes of one field of a message, and none for a number that the type has no field for. -/
def chunk (schema : Schema) (type : MessageType) (e : Nat × Value) : Bytes :=
  match type.field? e.1 with
  | some f => schema.encodeField f e.2
  | none => []

/-- A message takes at most 20 bytes more in a field than alone. -/
theorem length_encodeField_message_le_add (hw : f.IsWired) {target : MessageType}
    (hm : schema.message? f.type.name = some target) {values : FieldValues}
    (h : (schema.encode target values).length < 2 ^ 64) :
    (schema.encodeField f (.message values)).length ≤ (schema.encode target values).length + 20 := by
  rw [encodeField, hm]
  split
  · exact Nat.zero_le _
  · exact hw.length_encodeBody_le h

/-- A scalar takes at most 10 bytes more in a field than alone. -/
theorem length_encodeField_scalar_le_add (schema : Schema) (hw : f.IsWired) {kind : Scalar}
    (hk : f.type.scalar? = some kind) {value : Value} (h : value.isScalar = true) :
    (schema.encodeField f value).length ≤ (kind.encode value).length + 10 := by
  have hkey := hw.length_key_le kind.wireType
  rw [encodeField_scalar hk h]
  split
  · exact Nat.zero_le _
  · rw [List.length_append]
    omega

/-- The bytes of a message are the chunks of its fields, one after the other. -/
theorem encode_eq_flatMap (values : FieldValues) :
    schema.encode type values = values.flatMap (schema.chunk type) := by
  induction values with
  | nil => rfl
  | cons e rest ih =>
    obtain ⟨number, value⟩ := e
    rw [encode, ih]
    rfl

/-- Some of the fields of a message take no more bytes than all of them. -/
theorem length_encode_le_of_subset {values less : FieldValues} (hn : less.Nodup)
    (hsub : ∀ e ∈ less, e ∈ values) :
    (schema.encode type less).length ≤ (schema.encode type values).length := by
  obtain ⟨ordered, hperm, hordered⟩ := List.subperm_of_subset hn hsub
  rw [encode_eq_flatMap, encode_eq_flatMap, List.length_flatMap, List.length_flatMap, ← (hperm.map _).sum_eq]
  exact (hordered.map _).sum_le_sum fun _ _ => Nat.zero_le _

/-- The bytes of items are those of each in the field, one after the other. -/
theorem encodeItems_eq_flatMap (items : List Value) :
    schema.encodeItems f items = items.flatMap (schema.encodeField f) := by
  induction items with
  | nil => rfl
  | cons item rest ih =>
    rw [encodeItems, ih]
    rfl

/-- The fields that entries set take no more bytes than the chunks of all entries. -/
theorem length_encode_insertAll_le (entries : FieldValues) :
    (schema.encode type (Assoc.insertAll [] entries)).length ≤
      (entries.map fun e => (schema.chunk type e).length).sum := by
  rw [encode_eq_flatMap, List.length_flatMap]
  exact (Assoc.sum_insertAll_le (fun e => (schema.chunk type e).length) [] entries).trans_eq
    (Nat.zero_add _)

/-- A packed list takes at most 20 bytes more than its items do in fields of their own. -/
theorem length_encodePacked_le (hw : f.IsWired) {kind : Scalar} (hk : f.type.scalar? = some kind)
    {items : List Value} (hitems : ∀ item ∈ items, kind.Holds item ∧ f.omits item = false)
    (hlength : (items.flatMap (schema.encodeField f)).length < 2 ^ 64) :
    (f.encodePacked items).length ≤ (items.flatMap (schema.encodeField f)).length + 20 := by
  have hle : (items.flatMap kind.encode).length ≤ (items.flatMap (schema.encodeField f)).length := by
    rw [List.length_flatMap, List.length_flatMap]
    refine List.sum_le_sum fun item hitem => ?_
    obtain ⟨hholds, homits⟩ := hitems item hitem
    rw [encodeField_scalar hk (Scalar.isScalar_of_holds hholds), homits, if_neg Bool.false_ne_true,
      List.length_append]
    exact Nat.le_add_left _ _
  have hkey := hw.length_key_le .lengthDelimited
  have hprefixed := length_lengthPrefixed_le (hle.trans_lt hlength)
  rw [MessageField.encodePacked, hk]
  dsimp only
  rw [List.length_append]
  omega

end Schema

end Tagwire
