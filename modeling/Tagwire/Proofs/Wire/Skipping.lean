import Tagwire.Proofs.Wire.Writing

/-!
# Fields that a type does not know

A reader passes over a field that its type does not know, and where the field ends does not depend on what
it holds: wherever a reader that knows the field stops behind it, so does one that does not.  A type whose
fields are some of those of another one therefore reads what the other one reads, and keeps what it has
fields for.
-/

set_option autoImplicit false

namespace Tagwire

/-- A scalar that its kind decodes is passed over by `skipValue`, with the same bytes left. -/
theorem skipValue_of_decode? {kind : Scalar} {key : WireKey} (hkey : key.type = kind.wireType)
    {bytes rest : Bytes} {value : Value} (h : kind.decode? bytes = some (value, rest)) (depth : Nat) :
    skipValue (depth + 1) key bytes = some rest := by
  unfold Scalar.decode? at h
  rw [skipValue, hkey]
  cases hwire : kind.wireType with
  | fixed64 | fixed32 =>
    rw [hwire] at h
    obtain ⟨⟨body, more⟩, hsplit, hresult⟩ := Option.map_eq_some_iff.mp h
    cases hresult
    dsimp only
    rw [hsplit]
    rfl
  | varint =>
    rw [hwire] at h
    obtain ⟨⟨n, more⟩, hread, hresult⟩ := Option.map_eq_some_iff.mp h
    cases hresult
    dsimp only
    rw [hread]
    rfl
  | lengthDelimited =>
    rw [hwire] at h
    obtain ⟨⟨body, more⟩, hread, hresult⟩ := Option.bind_eq_some_iff.mp h
    dsimp only at hresult ⊢
    rw [hread]
    split at hresult
    · obtain ⟨text, -, htext⟩ := Option.bind_eq_some_iff.mp hresult
      cases htext
      rfl
    · cases hresult
      rfl
  | startGroup | endGroup => cases kind <;> cases hwire

namespace Schema

variable {schema : Schema} {nested : NestedReader} {depth : Nat} {f : MessageField} {key : WireKey}
  {bytes rest : Bytes}

/-- The key begins no group, and `skipValue` passes over the value behind it to `rest`. -/
def PassesOver (key : WireKey) (bytes rest : Bytes) : Prop :=
  key.type ≠ .startGroup ∧ skipValue 1 key bytes = some rest

/-- A body behind its length is passed over. -/
theorem passesOver_lengthPrefixed {body : Bytes} (hkey : key.type = .lengthDelimited)
    (h : readLengthPrefixed? bytes = some (body, rest)) : PassesOver key bytes rest := by
  refine ⟨fun hgroup => ?_, ?_⟩
  · rw [hkey] at hgroup
    cases hgroup
  · rw [skipValue, hkey]
    dsimp only
    rw [h]
    rfl

/-- A value that `readValue` reads for a field that is no group is passed over. -/
theorem passesOver_of_readValue (hgrouped : f.grouped = false) {current : Option Value} {value : Value}
    (h : schema.readValue nested f key.type current bytes = some (value, rest)) :
    PassesOver key bytes rest := by
  unfold readValue at h
  split at h
  · rename_i kind _
    split at h
    · rename_i hkey
      refine ⟨fun hgroup => ?_, skipValue_of_decode? hkey h 0⟩
      rw [hkey] at hgroup
      cases kind <;> cases hgroup
    · cases h
  · obtain ⟨message, -, h⟩ := Option.bind_eq_some_iff.mp h
    rw [hgrouped, if_neg Bool.false_ne_true] at h
    split at h
    · rename_i hkey
      obtain ⟨⟨body, more⟩, hbody, h⟩ := Option.bind_eq_some_iff.mp h
      obtain ⟨⟨values, left⟩, -, hresult⟩ := Option.bind_eq_some_iff.mp h
      cases hresult
      exact passesOver_lengthPrefixed hkey hbody
    · cases h

/-- Items that `readItems` reads for a field that is no group are passed over. -/
theorem passesOver_of_readItems (hgrouped : f.grouped = false) {items : List Value}
    (h : schema.readItems nested f key.type bytes = some (items, rest)) : PassesOver key bytes rest := by
  unfold readItems at h
  split at h
  · rename_i hkey _
    obtain ⟨⟨body, more⟩, hbody, h⟩ := Option.bind_eq_some_iff.mp h
    obtain ⟨packed, -, hresult⟩ := Option.bind_eq_some_iff.mp h
    cases hresult
    exact passesOver_lengthPrefixed hkey hbody
  · obtain ⟨⟨item, more⟩, hitem, hresult⟩ := Option.map_eq_some_iff.mp h
    cases hresult
    exact passesOver_of_readValue hgrouped hitem

/-- A value that `readOver` reads for a field that is neither a group nor a map is passed over. -/
theorem passesOver_of_readOver (hgrouped : f.grouped = false) (hshape : f.shape ≠ .map)
    {current : Option Value} {value : Value}
    (h : schema.readOver nested depth f key.type current bytes = some (value, rest)) :
    PassesOver key bytes rest := by
  unfold readOver at h
  split at h
  · exact passesOver_of_readValue hgrouped h
  · obtain ⟨read, hitems, hresult⟩ := Option.map_eq_some_iff.mp h
    cases hresult
    exact passesOver_of_readItems hgrouped hitems
  · rename_i hmap
    exact absurd hmap hshape

/-- What is passed over is skipped by `skipField`. -/
theorem PassesOver.skipField_eq (h : PassesOver key bytes rest) : skipField nested key bytes = some rest := by
  obtain ⟨hgroup, hskip⟩ := h
  unfold skipField
  split
  · rename_i hkey
    exact absurd hkey hgroup
  · exact hskip

/-- Reading a field that the type knows sets it with `setField`. -/
theorem exists_setField_of_readField {type : MessageType} {values next : FieldValues}
    (hf : type.field? key.number = some f)
    (h : schema.readField nested depth type key values bytes = some (next, rest)) :
    ∃ value, type.setField f value values = next := by
  rw [readField_eq_of_field? hf] at h
  obtain ⟨read, -, hresult⟩ := Option.map_eq_some_iff.mp h
  exact ⟨read.1, congrArg Prod.fst hresult⟩

/-- A field that one type reads, and which is neither a group nor a map, is passed over by `readField` for each
type that does not know it. -/
theorem readField_of_unknown {type other : MessageType} {values next : FieldValues} (kept : FieldValues)
    (hf : type.field? key.number = some f) (hgrouped : f.grouped = false) (hshape : f.shape ≠ .map)
    (h : schema.readField nested depth type key values bytes = some (next, rest))
    (hunknown : other.field? key.number = none) :
    schema.readField nested depth other key kept bytes = some (kept, rest) := by
  rw [readField_eq_of_field? hf] at h
  obtain ⟨read, hread, hresult⟩ := Option.map_eq_some_iff.mp h
  cases hresult
  rw [readField_eq_of_unknown hunknown, (passesOver_of_readOver hgrouped hshape hread).skipField_eq]
  rfl

end Schema

/-! ## Types with fewer fields -/

/-- The fields of `other` are fields of `type`, which has no groups, maps or oneofs. -/
structure MessageType.IsPartOf (other type : MessageType) : Prop where
  found : ∀ n f, other.field? n = some f → type.field? n = some f
  oneof : ∀ n f, type.field? n = some f → f.oneof = none
  grouped : ∀ n f, type.field? n = some f → f.grouped = false
  shape : ∀ n f, type.field? n = some f → f.shape ≠ .map

/-- The fields of a message that the type knows. -/
def MessageType.knownFields (type : MessageType) (values : FieldValues) : FieldValues :=
  values.filter fun e => (type.field? e.1).isSome

namespace MessageType.IsPartOf

variable {schema : Schema} {nested : Schema.NestedReader} {depth : Nat} {type other : MessageType}
  {key : WireKey} {values next : FieldValues} {bytes rest : Bytes}

/-- A known field has among `knownFields` the value that it has among all. -/
theorem get?_knownFields {n : Nat} {f : MessageField} (hf : other.field? n = some f) :
    FieldValues.get? (other.knownFields values) n = FieldValues.get? values n := by
  rw [FieldValues.get?_eq, FieldValues.get?_eq, knownFields,
    Assoc.get?_filter fun n => (other.field? n).isSome, if_pos (by rw [hf]; rfl)]

/-- Setting a field of `type` sets it among the known ones if `other` knows it, and changes nothing there
otherwise. -/
theorem knownFields_setField (h : other.IsPartOf type) (hs : Assoc.IsSorted values) {f : MessageField}
    (hf : type.field? key.number = some f) (value : Value) :
    Assoc.IsSorted (type.setField f value values) ∧
      other.knownFields (type.setField f value values) =
        if (other.field? key.number).isSome then other.setField f value (other.knownFields values)
        else other.knownFields values := by
  have hnumber : f.number = key.number := number_of_field? hf
  have hset : ∀ (t : MessageType) (kept : FieldValues),
      t.setField f value kept = Assoc.insert kept f.number value := by
    intro t kept
    have hrivals : t.rivals f = [] := by rw [rivals, h.oneof _ _ hf]
    simp [setField, hrivals, FieldValues.set_eq]
  rw [hset, hset, ← hnumber]
  exact ⟨hs.insert _ _, hs.filter_insert (fun n => (other.field? n).isSome) f.number value⟩

/-- A field that `readField` reads for `type` it reads for `other` too, with the same bytes left and the known
fields of the result. -/
theorem readField_knownFields (h : other.IsPartOf type) (hs : Assoc.IsSorted values)
    (hread : schema.readField nested depth type key values bytes = some (next, rest)) :
    Assoc.IsSorted next ∧ schema.readField nested depth other key (other.knownFields values) bytes =
      some (other.knownFields next, rest) := by
  cases hf : type.field? key.number with
  | none =>
    -- Neither type knows the field, and what is passed over does not depend on the type.
    have hunknown : other.field? key.number = none := by
      cases hother : other.field? key.number with
      | none => rfl
      | some f =>
        rw [h.found _ _ hother] at hf
        cases hf
    rw [Schema.readField_eq_of_unknown hf] at hread
    obtain ⟨more, hskipped, hresult⟩ := Option.map_eq_some_iff.mp hread
    cases hresult
    rw [Schema.readField_eq_of_unknown hunknown, hskipped]
    exact ⟨hs, rfl⟩
  | some f =>
    have hset := fun value => h.knownFields_setField hs hf value
    cases hother : other.field? key.number with
    | none =>
      have hkept := Schema.readField_of_unknown (other.knownFields values) hf (h.grouped _ _ hf)
        (h.shape _ _ hf) hread hother
      obtain ⟨value, rfl⟩ := Schema.exists_setField_of_readField hf hread
      obtain ⟨hsorted, hknown⟩ := hset value
      rw [hother, Option.isSome_none, if_neg Bool.false_ne_true] at hknown
      rw [hknown]
      exact ⟨hsorted, hkept⟩
    | some g =>
      obtain rfl : f = g := by
        rw [h.found _ _ hother, Option.some.injEq] at hf
        exact hf.symm
      have hnumber : f.number = key.number := number_of_field? hf
      have hcurrent : FieldValues.get? (other.knownFields values) f.number =
          FieldValues.get? values f.number :=
        get?_knownFields (hnumber ▸ hother)
      simp only [hother, Option.isSome_some, if_true] at hset
      -- The value so far is the same, so that the two types read the same value.
      rw [Schema.readField_eq_of_field? hf] at hread
      obtain ⟨read, hvalue, hresult⟩ := Option.map_eq_some_iff.mp hread
      cases hresult
      rw [Schema.readField_eq_of_field? hother, hcurrent, hvalue, (hset read.1).2]
      exact ⟨(hset read.1).1, rfl⟩

/-- Fields that `readFields` reads for `type` it reads for `other` too, with the same bytes left and the known
fields of the result. -/
theorem readFields_knownFields (h : other.IsPartOf type) {fuel : Nat} {result : FieldValues}
    (hs : Assoc.IsSorted values)
    (hread : readFields (schema.readField nested depth type) none fuel values bytes = some (result, rest)) :
    Assoc.IsSorted result ∧ readFields (schema.readField nested depth other) none fuel
      (other.knownFields values) bytes = some (other.knownFields result, rest) := by
  induction fuel generalizing values bytes with
  | zero =>
    cases bytes with
    | nil =>
      cases hread
      exact ⟨hs, rfl⟩
    | cons b bytes => cases hread
  | succ fuel ih =>
    cases bytes with
    | nil =>
      cases hread
      exact ⟨hs, rfl⟩
    | cons b bytes =>
      rw [readFields_cons, Option.bind_eq_some_iff] at hread
      obtain ⟨⟨key, behind⟩, hkey, hread⟩ := hread
      dsimp only at hread
      rw [if_neg (by simp)] at hread
      obtain ⟨⟨next, more⟩, hfield, hnext⟩ := Option.bind_eq_some_iff.mp hread
      obtain ⟨hsorted, hknown⟩ := h.readField_knownFields hs hfield
      obtain ⟨hresult, hrest⟩ := ih hsorted hnext
      refine ⟨hresult, ?_⟩
      rw [readFields_cons, hkey, Option.bind_some]
      dsimp only
      rw [if_neg (by simp), hknown, Option.bind_some]
      exact hrest

/-- Bytes that `decode?` reads for `type` it reads for `other` too, as the known fields of the message. -/
theorem decode?_knownFields (h : other.IsPartOf type) {result : FieldValues}
    (hread : schema.decode? type bytes = some result) :
    Assoc.IsSorted result ∧ schema.decode? other bytes = some (other.knownFields result) := by
  unfold Schema.decode? at hread ⊢
  obtain ⟨⟨values, rest⟩, hmessage, rfl⟩ := Option.map_eq_some_iff.mp hread
  rw [Schema.readMessage_eq] at hmessage ⊢
  have hempty : Assoc.IsSorted ([] : FieldValues) := .nil
  obtain ⟨hsorted, hother⟩ := h.readFields_knownFields hempty hmessage
  refine ⟨hsorted, ?_⟩
  have hnil : other.knownFields [] = [] := rfl
  rw [hnil] at hother
  rw [hother]
  rfl

end MessageType.IsPartOf

end Tagwire
