import Tagwire.Proofs.Wire.Length

/-!
# Types that are alike on the wire

The names of fields are not written.  Two types whose fields are scalars under the same numbers have the same
messages therefore, whichever schemas they belong to, and these messages have the same bytes.
-/

set_option autoImplicit false

namespace Tagwire

/-- Two fields with the same number, type, shape and oneof; their names may differ. -/
structure MessageField.IsAlike (f g : MessageField) : Prop where
  number : f.number = g.number
  type : f.type = g.type
  shape : f.shape = g.shape
  oneof : f.oneof = g.oneof

/-- Two types whose fields are alike one by one, in the same order. -/
def MessageType.IsAlike (type other : MessageType) : Prop :=
  List.Forall₂ MessageField.IsAlike type.fields other.fields

/-- Each field of the type is of a scalar kind, single or a list, and in no oneof. -/
def MessageType.IsFlat (type : MessageType) : Prop :=
  ∀ f ∈ type.fields, (∃ kind, f.type = .scalar kind) ∧ f.oneof = none

namespace MessageType

variable {type other : MessageType}

/-- Being alike is symmetric. -/
theorem IsAlike.symm (h : type.IsAlike other) : other.IsAlike type :=
  h.flip.imp fun _ _ h => ⟨h.number.symm, h.type.symm, h.shape.symm, h.oneof.symm⟩

/-- Of two types that are alike, `field?` finds fields that are alike under each number. -/
theorem IsAlike.exists_field? (h : type.IsAlike other) {number : Nat} {f : MessageField}
    (hf : type.field? number = some f) : ∃ g, other.field? number = some g ∧ f.IsAlike g := by
  have hfind : ∀ {fields others : List MessageField}, List.Forall₂ MessageField.IsAlike fields others →
      (fields.find? fun f => f.number == number) = some f →
      ∃ g, (others.find? fun f => f.number == number) = some g ∧ f.IsAlike g := by
    intro fields others h
    induction h with
    | nil => exact nofun
    | @cons f g _ _ hfirst _ ih =>
      rw [List.find?_cons, List.find?_cons, hfirst.number]
      split
      · intro heq
        cases heq
        exact ⟨g, rfl, hfirst⟩
      · exact ih
  exact hfind h hf

/-- A type that is alike a flat one is flat. -/
theorem IsAlike.isFlat (h : type.IsAlike other) (hflat : other.IsFlat) : type.IsFlat := by
  intro f hf
  obtain ⟨g, hg, hlike⟩ := exists_of_forall₂ h hf
  obtain ⟨hkind, hone⟩ := hflat g hg
  exact ⟨hlike.type ▸ hkind, hlike.oneof ▸ hone⟩

end MessageType

namespace Schema

variable {schema alien : Schema} {type other : MessageType} {f g : MessageField}

/-- A value of a scalar type in one schema is so in every schema. -/
theorem Holds.of_scalar {shape : FieldShape} {kind : Scalar} {value : Value}
    (h : schema.Holds shape (.scalar kind) value) : alien.Holds shape (.scalar kind) value := by
  cases h with
  | scalar hk hvalue => exact .scalar hk hvalue
  | list hitems =>
    refine .list fun item hitem => ?_
    have hvalue := (hitems item hitem).of_scalar? rfl
    exact .scalar rfl hvalue

/-- Plain fields of a scalar kind that are alike write a value to the same bytes. -/
theorem encodeField_eq_of_isAlike (hf : f.IsPlain) (hg : g.IsPlain) (hl : f.IsAlike g) {kind : Scalar}
    (hkind : f.type = .scalar kind) {value : Value}
    (h : schema.Holds f.shape f.type value) : schema.encodeField f value = alien.encodeField g value := by
  have homits : ∀ v, f.omits v = g.omits v := by
    intro v
    rw [MessageField.omits, MessageField.omits, hf.presence, hf.default, hg.presence, hg.default, hl.shape,
      hl.type, hl.oneof]
  have hkey : f.key = g.key := by
    funext wire
    rw [MessageField.key, MessageField.key, hl.number]
  have hk : f.type.scalar? = some kind := by rw [hkind]; rfl
  have hk' : g.type.scalar? = some kind := hl.type ▸ hk
  have hscalar : ∀ v : Value, v.isScalar = true → schema.encodeField f v = alien.encodeField g v := by
    intro v hv
    rw [encodeField_scalar hk hv, encodeField_scalar hk' hv, homits, hkey]
  rw [hkind] at h
  generalize hgen : f.shape = shape at h
  cases h with
  | scalar hown hvalue => exact hscalar value (Scalar.isScalar_of_holds hvalue)
  | @list _ items hitems =>
    have hpacked : f.packed = g.packed := by rw [hf.packed, hg.packed, hl.shape, hl.type]
    have hflat : items.flatMap (schema.encodeField f) = items.flatMap (alien.encodeField g) :=
      List.flatMap_congr fun item hitem =>
        hscalar item (Scalar.isScalar_of_holds ((hitems item hitem).of_scalar? rfl))
    rw [encodeField, encodeField, homits, hpacked, encodeItems_eq_flatMap, encodeItems_eq_flatMap, hflat,
      MessageField.encodePacked, MessageField.encodePacked, hk, hk', hkey]

/-- Flat types that are alike write a message to the same bytes. -/
theorem encode_eq_of_isAlike (hp : type.IsPlain schema) (hp' : other.IsPlain alien)
    (hflat : type.IsFlat) (hl : type.IsAlike other) {values : FieldValues} (h : type.Holds schema values) :
    schema.encode type values = alien.encode other values := by
  rw [encode_eq_flatMap, encode_eq_flatMap]
  refine List.flatMap_congr fun e he => ?_
  obtain ⟨f, hf⟩ := Option.isSome_iff_exists.mp (h.found e he)
  obtain ⟨g, hg, hlike⟩ := hl.exists_field? hf
  have hmem := List.mem_of_find?_eq_some hf
  obtain ⟨⟨kind, hkind⟩, -⟩ := hflat f hmem
  rw [chunk, chunk, hf, hg]
  exact encodeField_eq_of_isAlike (hp.fields f hmem) (hp'.fields g (List.mem_of_find?_eq_some hg)) hlike
    hkind (h.fields e he f hf)

end Schema

/-- Flat types that are alike have the same messages. -/
theorem MessageType.IsAlike.holds {schema alien : Schema} {type other : MessageType} (hl : other.IsAlike type)
    (hflat : other.IsFlat) {values : FieldValues} (h : type.Holds schema values) :
    other.Holds alien values := by
  have hfields : ∀ e ∈ values, ∀ g, other.field? e.1 = some g → alien.Holds g.shape g.type e.2 := by
    intro e he g hg
    obtain ⟨f, hf, hlike⟩ := hl.exists_field? hg
    obtain ⟨⟨kind, hkind⟩, -⟩ := hflat g (List.mem_of_find?_eq_some hg)
    have hvalue := h.fields e he f hf
    rw [← hlike.shape, ← hlike.type, hkind] at hvalue
    rw [hkind]
    exact hvalue.of_scalar
  refine ⟨h.sorted, fun e he => ?_, fun e he g hg number hrival => ?_, hfields⟩
  · obtain ⟨f, hf⟩ := Option.isSome_iff_exists.mp (h.found e he)
    obtain ⟨g, hg, -⟩ := hl.symm.exists_field? hf
    rw [hg]
    rfl
  · rw [rivals, (hflat g (List.mem_of_find?_eq_some hg)).2] at hrival
    cases hrival

end Tagwire
