import Tagwire.Proofs.Wire.FirstField
import Tagwire.Proofs.Wire.Skipping

/-!
# Messages whose fields stand behind their length

Whatever a type makes of a field that stands behind its length, what follows is read from the byte behind it.
So a message of such fields is read by any type field by field, and if the first field of the type is a text,
it is one of the texts that were written under its number, or nothing.
-/

set_option autoImplicit false

namespace Tagwire

/-! ## What stands behind its length -/

/-- From the bytes of `n`, with others behind them, `read?` can read `n` only. -/
theorem Varint.eq_of_read?_encode {count n m : Nat} {rest more : Bytes}
    (h : read? count (encode n ++ rest) = some (m, more)) : m = n ∧ more = rest := by
  induction count generalizing n m more with
  | zero => cases h
  | succ count ih =>
    rw [encode] at h
    split at h
    · rename_i hn
      have hbyte : (UInt8.ofNat n).toNat = n := by
        rw [UInt8.toNat_ofNat']
        omega
      rw [List.singleton_append, read?, hbyte, if_pos hn] at h
      cases h
      exact ⟨rfl, rfl⟩
    · have hbyte : (UInt8.ofNat (n % 128 + 128)).toNat = n % 128 + 128 := by
        rw [UInt8.toNat_ofNat']
        omega
      rw [List.cons_append, read?, hbyte, if_neg (by omega)] at h
      obtain ⟨⟨high, left⟩, hread, hresult⟩ := Option.map_eq_some_iff.mp h
      obtain ⟨rfl, rfl⟩ := ih hread
      cases hresult
      exact ⟨by omega, rfl⟩

/-- From a body behind its length, `readLengthPrefixed?` can read this body only. -/
theorem eq_of_readLengthPrefixed? {body rest read more : Bytes}
    (h : readLengthPrefixed? (lengthPrefixed body ++ rest) = some (read, more)) :
    read = body ∧ more = rest := by
  obtain ⟨⟨length, left⟩, hlength, hsplit⟩ := Option.bind_eq_some_iff.mp h
  obtain ⟨⟨n, left'⟩, hread, hresult⟩ := Option.bind_eq_some_iff.mp hlength
  rw [lengthPrefixed, List.append_assoc] at hread
  obtain ⟨rfl, rfl⟩ := Varint.eq_of_read?_encode hread
  obtain ⟨-, hresult⟩ := Option.ite_none_right_eq_some.mp hresult
  cases hresult
  dsimp only at hsplit
  rw [splitBytes?_append] at hsplit
  cases hsplit
  exact ⟨rfl, rfl⟩

/-- The bytes are fields written behind their lengths, and `p` holds of the number and the body of each. -/
inductive Delimited (p : Nat → Bytes → Prop) : Bytes → Prop
  | nil : Delimited p []
  | cons {number : Nat} {body rest : Bytes} (hpos : 0 < number) (hlt : number < 2 ^ 29)
      (hbody : p number body) (hrest : Delimited p rest) :
      Delimited p (WireKey.encode ⟨number, .lengthDelimited⟩ ++ (lengthPrefixed body ++ rest))

/-- Delimited bytes behind delimited bytes are delimited. -/
theorem Delimited.append {p : Nat → Bytes → Prop} {a b : Bytes} (ha : Delimited p a)
    (hb : Delimited p b) : Delimited p (a ++ b) := by
  induction ha with
  | nil => exact hb
  | cons hpos hlt hbody _ ih =>
    rw [List.append_assoc, List.append_assoc]
    exact .cons hpos hlt hbody ih

namespace Schema

variable {schema : Schema} {nested : NestedReader} {depth : Nat} {f : MessageField}
  {bytes rest : Bytes}

/-! ## Reading one field -/

/-- What `skipValue` passes over behind a key with a length is the body of this length. -/
theorem exists_body_of_skipValue {number : Nat}
    (h : skipValue (depth + 1) ⟨number, .lengthDelimited⟩ bytes = some rest) :
    ∃ body, readLengthPrefixed? bytes = some (body, rest) := by
  rw [skipValue] at h
  obtain ⟨⟨body, more⟩, hread, rfl⟩ := Option.map_eq_some_iff.mp h
  exact ⟨body, hread⟩

/-- What `readValue` reads behind a key with a length is the body of this length. -/
theorem exists_body_of_readValue {current : Option Value} {value : Value}
    (h : schema.readValue nested f .lengthDelimited current bytes = some (value, rest)) :
    ∃ body, readLengthPrefixed? bytes = some (body, rest) := by
  unfold readValue at h
  split at h
  · obtain ⟨hwire, h⟩ := Option.ite_none_right_eq_some.mp h
    have hkey : (⟨1, .lengthDelimited⟩ : WireKey).type = _ := hwire
    exact exists_body_of_skipValue (skipValue_of_decode? hkey h 0)
  · obtain ⟨message, -, h⟩ := Option.bind_eq_some_iff.mp h
    by_cases hgrouped : f.grouped = true
    · rw [if_pos hgrouped, if_neg (by decide)] at h
      cases h
    · rw [if_neg hgrouped, if_pos rfl] at h
      obtain ⟨⟨body, more⟩, hbody, h⟩ := Option.bind_eq_some_iff.mp h
      obtain ⟨⟨values, left⟩, -, hresult⟩ := Option.bind_eq_some_iff.mp h
      cases hresult
      exact ⟨body, hbody⟩

/-- What `readItems` reads behind a key with a length is the body of this length. -/
theorem exists_body_of_readItems {items : List Value}
    (h : schema.readItems nested f .lengthDelimited bytes = some (items, rest)) :
    ∃ body, readLengthPrefixed? bytes = some (body, rest) := by
  unfold readItems at h
  split at h
  · obtain ⟨⟨body, more⟩, hbody, h⟩ := Option.bind_eq_some_iff.mp h
    obtain ⟨packed, -, hresult⟩ := Option.bind_eq_some_iff.mp h
    cases hresult
    exact ⟨body, hbody⟩
  · obtain ⟨⟨item, more⟩, hitem, hresult⟩ := Option.map_eq_some_iff.mp h
    cases hresult
    exact exists_body_of_readValue hitem

/-- What `readMapEntry` reads is the body of the length before it. -/
theorem exists_body_of_readMapEntry {entry : MapKey × Value}
    (h : schema.readMapEntry nested depth f bytes = some (entry, rest)) :
    ∃ body, readLengthPrefixed? bytes = some (body, rest) := by
  unfold readMapEntry at h
  obtain ⟨entryType, -, h⟩ := Option.bind_eq_some_iff.mp h
  obtain ⟨keyField, -, h⟩ := Option.bind_eq_some_iff.mp h
  obtain ⟨valueField, -, h⟩ := Option.bind_eq_some_iff.mp h
  obtain ⟨⟨body, more⟩, hbody, h⟩ := Option.bind_eq_some_iff.mp h
  obtain ⟨⟨key, value⟩, -, h⟩ := Option.bind_eq_some_iff.mp h
  obtain ⟨mapKey, -, hresult⟩ := Option.bind_eq_some_iff.mp h
  cases hresult
  exact ⟨body, hbody⟩

/-- What `readOver` reads behind a key with a length is the body of this length. -/
theorem exists_body_of_readOver {current : Option Value} {value : Value}
    (h : schema.readOver nested depth f .lengthDelimited current bytes = some (value, rest)) :
    ∃ body, readLengthPrefixed? bytes = some (body, rest) := by
  unfold readOver at h
  split at h
  · exact exists_body_of_readValue h
  · obtain ⟨read, hitems, hresult⟩ := Option.map_eq_some_iff.mp h
    cases hresult
    exact exists_body_of_readItems hitems
  · obtain ⟨read, hentry, hresult⟩ := Option.map_eq_some_iff.mp h
    cases hresult
    exact exists_body_of_readMapEntry hentry

/-- What `readField` reads behind a key with a length is the body of this length, be the field known or not. -/
theorem exists_body_of_readField {type : MessageType} {number : Nat} {values next : FieldValues}
    (h : schema.readField nested depth type ⟨number, .lengthDelimited⟩ values bytes = some (next, rest)) :
    ∃ body, readLengthPrefixed? bytes = some (body, rest) := by
  cases hf : type.field? number with
  | some f =>
    rw [readField_eq_of_field? hf] at h
    obtain ⟨read, hread, hresult⟩ := Option.map_eq_some_iff.mp h
    cases hresult
    exact exists_body_of_readOver hread
  | none =>
    rw [readField_eq_of_unknown hf] at h
    obtain ⟨more, hmore, hresult⟩ := Option.map_eq_some_iff.mp h
    cases hresult
    have hskip : skipValue 1 ⟨number, .lengthDelimited⟩ bytes = some rest := hmore
    exact exists_body_of_skipValue hskip

/-- A field of text is set to the text that its body is the bytes of. -/
theorem exists_text_of_readField {type : MessageType} {number : Nat} {values next : FieldValues}
    (hfound : type.field? number = some f) (hf : f.IsText)
    (h : schema.readField nested depth type ⟨number, .lengthDelimited⟩ values bytes = some (next, rest)) :
    ∃ text, readLengthPrefixed? bytes = some (Bytes.ofString text, rest) ∧
      next = type.setField f (.string text) values := by
  rw [readField_eq_of_field? hfound, readOver, hf.shape] at h
  obtain ⟨⟨value, more⟩, hvalue, hresult⟩ := Option.map_eq_some_iff.mp h
  cases hresult
  unfold readValue at hvalue
  rw [hf.type] at hvalue
  obtain ⟨⟨body, left⟩, hbody, hvalue⟩ := Option.bind_eq_some_iff.mp hvalue
  obtain ⟨text, htext, hresult⟩ := Option.bind_eq_some_iff.mp hvalue
  cases hresult
  rw [Utf8.eq_ofString_of_decode? htext] at hbody
  exact ⟨text, hbody, rfl⟩

/-! ## Reading a message -/

/-- The fields are sorted by number, and number 1, if set, holds a text whose bytes have `p`. -/
structure FirstText (p : Bytes → Prop) (values : FieldValues) : Prop where
  sorted : Assoc.IsSorted values
  text : ∀ value, FieldValues.get? values 1 = some value →
    ∃ s, value = .string s ∧ p (Bytes.ofString s)

/-- The effect of `setField` on sorted fields: they stay sorted, the number of the field holds the value, and
under any other number nothing changes or the value is removed. -/
theorem setField_spec {values : FieldValues} (hs : Assoc.IsSorted values) (type : MessageType)
    (f : MessageField) (value : Value) : Assoc.IsSorted (type.setField f value values) ∧
      FieldValues.get? (type.setField f value values) f.number = some value ∧
      ∀ number, number ≠ f.number → FieldValues.get? (type.setField f value values) number = none ∨
        FieldValues.get? (type.setField f value values) number = FieldValues.get? values number := by
  unfold MessageType.setField
  dsimp only
  refine ⟨?_, ?_, fun number hnumber => ?_⟩
  · rw [FieldValues.set_eq]
    exact (hs.filter _).insert _ _
  · rw [FieldValues.get?_set, if_pos rfl]
  · rw [FieldValues.get?_set, if_neg hnumber.symm, FieldValues.get?_eq, FieldValues.get?_eq,
      Assoc.get?_filter fun n => !((type.rivals f).filter (· != f.number)).contains n]
    split
    · exact .inr rfl
    · exact .inl rfl

/-- Reading a field behind its length keeps `FirstText`, if the body has `p` where the number is 1. -/
theorem firstText_of_readField {p : Bytes → Prop} {type : MessageType} (hfound : type.field? 1 = some f)
    (hf : f.IsText) {number : Nat} {body : Bytes} (hbody : number = 1 → p body)
    {values next : FieldValues} (hvalues : FirstText p values)
    (h : schema.readField nested depth type ⟨number, .lengthDelimited⟩ values
      (lengthPrefixed body ++ bytes) = some (next, rest)) : rest = bytes ∧ FirstText p next := by
  obtain ⟨read, hread⟩ := exists_body_of_readField h
  refine ⟨(eq_of_readLengthPrefixed? hread).2, ?_⟩
  cases hnumber : type.field? number with
  | none =>
    rw [readField_eq_of_unknown hnumber] at h
    obtain ⟨more, -, hresult⟩ := Option.map_eq_some_iff.mp h
    cases hresult
    exact hvalues
  | some g =>
    have hg : g.number = number := MessageType.number_of_field? hnumber
    by_cases hone : number = 1
    · subst hone
      obtain rfl : f = g := Option.some.inj (hfound.symm.trans hnumber)
      obtain ⟨text, htext, rfl⟩ := exists_text_of_readField hfound hf h
      obtain ⟨hsorted, hset, -⟩ := setField_spec hvalues.sorted type f (.string text)
      refine ⟨hsorted, fun value hvalue => ⟨text, ?_, ?_⟩⟩
      · rw [← hg, hset] at hvalue
        exact (Option.some.inj hvalue).symm
      · exact (eq_of_readLengthPrefixed? htext).1 ▸ hbody rfl
    · obtain ⟨value, rfl⟩ := exists_setField_of_readField hnumber h
      obtain ⟨hsorted, -, hothers⟩ := setField_spec hvalues.sorted type g value
      refine ⟨hsorted, fun read hread => ?_⟩
      rcases hothers 1 (hg ▸ Ne.symm hone) with hnone | hsame
      · rw [hnone] at hread
        cases hread
      · exact hvalues.text read (hsame ▸ hread)

/-- The fields that `decode?` reads from delimited bytes have `FirstText`, if each body under number 1 has
`p`. -/
theorem firstText_of_decode? {p : Bytes → Prop} {type : MessageType} (hfound : type.field? 1 = some f)
    (hf : f.IsText) (hbytes : Delimited (fun number body => number = 1 → p body) bytes)
    {values : FieldValues} (h : schema.decode? type bytes = some values) : FirstText p values := by
  have hloop : ∀ (fuel : Nat) (before : FieldValues) (result : FieldValues × Bytes), FirstText p before →
      readFields (schema.readField (schema.nestedReader maxNesting) maxNesting type) none fuel before bytes =
        some result → FirstText p result.1 := by
    clear h
    induction hbytes with
    | nil =>
      intro fuel before result hbefore hread
      cases fuel <;> cases hread <;> exact hbefore
    | @cons number body rest hpos hlt hbody _ ih =>
      intro fuel before result hbefore hread
      have hkey := WireKey.decode?_encode ⟨number, .lengthDelimited⟩ hpos hlt (lengthPrefixed body ++ rest)
      obtain ⟨next, more, left, hfield, hloop⟩ := exists_of_readFields hkey hread
      obtain ⟨rfl, hnext⟩ := firstText_of_readField hfound hf hbody hbefore hfield
      exact ih left next result hnext hloop
  obtain ⟨⟨result, left⟩, hread, rfl⟩ := Option.map_eq_some_iff.mp h
  rw [readMessage_eq] at hread
  exact hloop _ _ _ ⟨by simp [Assoc.IsSorted], fun _ hvalue => (by cases hvalue)⟩ hread

end Schema

end Tagwire
