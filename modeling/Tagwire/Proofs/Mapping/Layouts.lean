import Tagwire.Proofs.Mapping.Returning
import Tagwire.Proofs.Wire.Alike
import Tagwire.Proofs.Wire.Passage

/-!
# Messages with a form of their own come back

The layouts are types of their own on the wire.  A message of a schema that has the bytes of fields in a layout
is stored from them, and is loaded as what is kept of them; so its JSON form is read back as soon as these fields
are read from it and show as it again.
-/

set_option autoImplicit false

namespace Tagwire

open Schema

namespace SpecialForm

/-! ## The layouts are plain -/

/-- The field that `scalarField` makes is plain, if its number is positive and below `2 ^ 29`. -/
theorem isPlain_scalarField {number : Nat} (hpos : 0 < number) (hlt : number < 2 ^ 29) (name : String)
    (kind : Scalar) : (scalarField name number kind).IsPlain :=
  ⟨hpos, hlt, rfl, rfl, rfl, rfl, nofun⟩

/-- The field that `choiceField` makes is plain, if its number is positive and below `2 ^ 29`. -/
theorem isPlain_choiceField {number : Nat} (hpos : 0 < number) (hlt : number < 2 ^ 29) (name : String)
    (type : ValueType) : (choiceField name number type).IsPlain := by
  refine ⟨hpos, hlt, rfl, rfl, rfl, ?_, nofun⟩
  show true = (type.isMessage || true)
  rw [Bool.or_true]

/-- The field that `messagesField` makes is plain, if its number is positive and below `2 ^ 29`. -/
theorem isPlain_messagesField {number : Nat} (hpos : 0 < number) (hlt : number < 2 ^ 29) (name type : String) :
    (messagesField name number type).IsPlain :=
  ⟨hpos, hlt, rfl, rfl, rfl, rfl, fun _ => rfl⟩

/-- A linked type is wired in `layouts` if its fields are plain, none is a map, and each is of a scalar kind or
of a message of `layouts`. -/
theorem isWired_of_fields {type : MessageType} (hl : type.IsLinked) (hp : ∀ f ∈ type.fields, f.IsPlain)
    (hplain : ∀ f ∈ type.fields, f.shape ≠ .map ∧ ((∃ kind, f.type = .scalar kind) ∨
      ∃ name target, f.type = .message name ∧ layouts.message? name = some target)) :
    type.IsWired layouts := by
  refine ⟨hl, fun f hf => (hp f hf).isWired, fun f hf name htype => ?_, fun f hf name htype => ?_,
    fun f hf _ _ => (hplain f hf).1⟩
  · obtain ⟨-, ⟨kind, hkind⟩ | ⟨target, -, htarget, -⟩⟩ := hplain f hf
    · rw [hkind] at htype
      cases htype
    · rw [htarget] at htype
      cases htype
  · obtain ⟨hshape, ⟨kind, hkind⟩ | ⟨own, target, hown, htarget⟩⟩ := hplain f hf
    · rw [hkind] at htype
      cases htype
    · rw [hown, ValueType.message.injEq] at htype
      exact ⟨target, htype ▸ htarget, fun hmap => absurd hmap hshape⟩

/-- Are the fields of the layout scalars, or lists of them?  So it is except for the dynamic values. -/
def isFlat : SpecialForm → Bool
  | struct | value | listValue => false
  | _ => true

/-- The layouts of flat forms are flat types. -/
theorem isFlat_layout {form : SpecialForm} (h : form.isFlat = true) : form.layout.IsFlat := by
  cases form <;> first | (cases h; done) | simp [MessageType.IsFlat, layout, fields, scalarField]

/-- No field of a layout is a map. -/
theorem shape_ne_map (form : SpecialForm) : ∀ f ∈ form.layout.fields, f.shape ≠ .map := by
  cases form <;> simp [layout, fields, scalarField, choiceField, messagesField]

/-- Each layout is plain in `layouts`. -/
theorem isPlain_layout (form : SpecialForm) : form.layout.IsPlain layouts := by
  have hlt : ∀ {number : Nat}, number ≤ 6 → number < 2 ^ 29 := fun h => h.trans_lt (by decide)
  refine ⟨?_, fun f hf hmap => absurd hmap (form.shape_ne_map f hf)⟩
  cases form with
  | fieldMask =>
    rintro f (_ | ⟨_, ⟨⟩⟩)
    exact ⟨by decide, by decide, rfl, rfl, rfl, rfl, fun _ => rfl⟩
  | _ =>
    simp [layout, fields, isPlain_scalarField, isPlain_choiceField, isPlain_messagesField, hlt]

/-- Each layout is wired in `layouts`. -/
theorem isWired_layout (form : SpecialForm) : form.layout.IsWired layouts := by
  refine isWired_of_fields ?_ form.isPlain_layout.fields fun f hf => ⟨form.shape_ne_map f hf, ?_⟩
  · cases form with
    | wrapper kind => exact ⟨List.nodup_singleton _, List.nodup_singleton _⟩
    | _ => exact ⟨by decide, by decide⟩
  · revert f
    cases form <;>
    simp [layout, fields, scalarField, choiceField, messagesField, layouts, message?, Entries.get?]

/-- The layout of an entry is wired in `layouts`. -/
theorem isWired_entryLayout : entryLayout.IsWired layouts := by
  refine isWired_of_fields ⟨by decide, by decide⟩ ?_ ?_
  · rintro f (_ | ⟨_, _ | ⟨_, ⟨⟩⟩⟩)
    · exact isPlain_scalarField (by decide) (by decide) _ _
    · exact ⟨by decide, by decide, rfl, rfl, rfl, rfl, nofun⟩
  · simp [entryLayout, scalarField, layouts, message?, Entries.get?]

/-- Each message type of `layouts` is the layout of a form or `entryLayout`. -/
theorem eq_layout_of_message? {name : String} {type : MessageType} (h : layouts.message? name = some type) :
    type = entryLayout ∨ ∃ form : SpecialForm, type = form.layout := by
  have hmem : (name, type) ∈ layouts.messages := Entries.mem_of_get?_eq_some h
  simp only [layouts, List.mem_cons, Prod.mk.injEq, List.not_mem_nil, or_false] at hmem
  obtain ⟨-, rfl⟩ | ⟨-, rfl⟩ | ⟨-, rfl⟩ | ⟨-, rfl⟩ := hmem
  · exact .inl rfl
  · exact .inr ⟨listValue, rfl⟩
  · exact .inr ⟨struct, rfl⟩
  · exact .inr ⟨value, rfl⟩

/-- All message types of `layouts` are wired. -/
theorem isWired_layouts : layouts.IsWired := by
  intro name type htype
  obtain rfl | ⟨form, rfl⟩ := eq_layout_of_message? htype
  · exact isWired_entryLayout
  · exact form.isWired_layout

/-- What `layouts.decode?` reads is a message of the layout, and nests at most `maxNesting` levels. -/
theorem holdsFields_of_decode? {form : SpecialForm} {bytes : Bytes} {values : FieldValues}
    (h : layouts.decode? form.layout bytes = some values) :
    layouts.HoldsFields maxNesting form.layout values := by
  refine isWired_layouts.holdsFields_of_decode?_of_forall_ne form.isWired_layout (fun name target htarget => ?_)
    form.shape_ne_map h
  obtain rfl | ⟨other, rfl⟩ := eq_layout_of_message? htarget
  · simp [entryLayout, scalarField]
  · exact other.shape_ne_map

/-! ## Into a layout and out of it -/

section

variable {schema : Schema} {type : MessageType} {form : SpecialForm} {laidOut stored : FieldValues}

/-- Fields in a layout are stored as what is kept of the message `stored`, if `stored` has the same bytes and
nests at most `maxNesting` levels. -/
theorem store?_eq (hs : schema.IsWired) (hw : type.IsWired schema) (h : type.Holds schema stored)
    (hd : FieldValues.nesting stored ≤ maxNesting) (hlength : (schema.encode type stored).length < 2 ^ 64)
    (hsame : schema.encode type stored = layouts.encode form.layout laidOut) :
    form.store? schema type laidOut = some (schema.kept type stored) := by
  rw [store?, ← hsame, hs.decode?_encode hw h hd hlength]

/-- What is kept of the message `stored` is loaded as what is kept of the fields `laidOut`, if both have the
same bytes and `laidOut` nests at most `maxNesting` levels. -/
theorem load?_kept_eq (h : form.layout.Holds layouts laidOut) (hd : FieldValues.nesting laidOut ≤ maxNesting)
    (hlength : (schema.encode type stored).length < 2 ^ 64)
    (hsame : schema.encode type stored = layouts.encode form.layout laidOut) :
    form.load? schema type (schema.kept type stored) = some (layouts.kept form.layout laidOut) := by
  rw [load?, encode_kept, hsame, isWired_layouts.decode?_encode form.isWired_layout h hd (hsame ▸ hlength)]

end

end SpecialForm

/-! ## What comes back -/

/-- The fields `laidOut` in the layout of a form are what `ofJson?` reads `json` as, they take at most
`64 * json.size - 20` bytes, and what is kept of them shows `json` again up to `g`. -/
structure SpecialForm.Returns (form : SpecialForm) (g : Binary64 → Binary64) (json : Json)
    (laidOut : FieldValues) : Prop where
  reads : form.ofJson? json = some laidOut
  holds : form.layout.Holds layouts laidOut
  length : (layouts.encode form.layout laidOut).length + 20 ≤ 64 * json.size
  shows : (form.toJson? (layouts.kept form.layout laidOut)).map (Json.mapFloats g) = some (json.mapFloats g)

/-- Fields with `Returns`, and a message `stored` of the type with the same bytes, which nests fewer than
`levels` deep. -/
structure SpecialForm.ReadsBack (form : SpecialForm) (schema : Schema) (type : MessageType)
    (g : Binary64 → Binary64) (levels : Nat) (json : Json) (laidOut stored : FieldValues) : Prop
    extends form.Returns g json laidOut where
  depth : FieldValues.nesting laidOut ≤ maxNesting
  stores : type.Holds schema stored
  nesting : FieldValues.nesting stored < levels
  same : schema.encode type stored = layouts.encode form.layout laidOut

namespace Schema

variable {schema : Schema} {g : Binary64 → Binary64} {levels : Nat} {type : MessageType}

/-- A message that takes at most `64 * size - 20` bytes takes at most `64 * size` in any field. -/
theorem length_encodeField_message_le (hm : schema.message? type.name = some type) {f : MessageField}
    (hw : f.IsWired) (htype : f.type = .message type.name) {values : FieldValues} {size : Nat}
    (hsize : size < 2 ^ 56) (hlength : (schema.encode type values).length + 20 ≤ 64 * size) :
    (schema.encodeField f (.message values)).length ≤ 64 * size := by
  have hname : f.type.name = type.name := by rw [htype]; rfl
  have hle := length_encodeField_message_le_add hw (hname ▸ hm)
    (show (schema.encode type values).length < 2 ^ 64 by omega)
  omega

/-- The JSON form of a message is read back if fields in its layout are. -/
theorem comesBack_form (hs : schema.IsTyped) (hm : schema.message? type.name = some type) {form : SpecialForm}
    (hform : SpecialForm.ofTypeName? type.name = some form) (hany : form ≠ .any)
    (hlevels : levels ≤ maxNesting + 1) {json : Json} (hsize : json.size < 2 ^ 56)
    {laidOut stored : FieldValues} (h : form.ReadsBack schema type g levels json laidOut stored) :
    schema.ComesBack g levels .single (.message type.name) json := by
  have hw := hs.types _ type hm
  have hdepth : FieldValues.nesting stored ≤ maxNesting := by
    have := h.nesting
    omega
  have hfew : (schema.encode type stored).length + 20 ≤ 64 * json.size := h.same ▸ h.length
  have hlength : (schema.encode type stored).length < 2 ^ 64 := by omega
  have hstore := SpecialForm.store?_eq hs.types hw h.stores hdepth hlength h.same
  have hload := SpecialForm.load?_kept_eq h.holds h.depth hlength h.same
  refine ⟨.message (schema.kept type stored), ?_, ?_, fun f hwired htype => ?_, ?_⟩
  · rw [valueOfJson?_form hm hform hany, h.reads, Option.bind_some, hstore, Option.map_some]
  · rw [Value.nesting]
    exact (Nat.succ_le_succ (nesting_kept_le schema type stored)).trans h.nesting
  · refine length_encodeField_message_le hm hwired htype hsize ?_
    rw [encode_kept]
    exact hfew
  · rw [valueToJson?]
    simp only [ValueType.name, hm, hform, specialToJson?, hload, Option.bind_eq_bind, Option.bind_some]
    cases form with
    | any => exact absurd rfl hany
    | _ => exact h.shows

end Schema

end Tagwire
