import Tagwire.Proofs.Mapping.FieldMask
import Tagwire.Proofs.Mapping.Moments
import Tagwire.Proofs.Mapping.Packed
import Tagwire.Proofs.Mapping.Structures

/-!
# Messages that can be told from what they show

Most of what a message holds can be read back from the JSON value that it shows.  There are four exceptions: a
wrapper shows a float that is not finite as null, a timestamp whose billionths carry it out of the years that
texts are of has a text that is not read, a field mask shows a path without a name as a gap that is passed over,
and the null that an entry of a structure without a value shows is a message once it is read.  Everything else
comes back, level by level.
-/

set_option autoImplicit false

namespace Tagwire

/-- The fields in the layout of a form are determined by what they show: a wrapper holds a finite float, if any;
the year of a timestamp is one of 1 to 9999; the text of a field mask has no empty path; and a dynamic value
nests at most `maxNesting` levels in its layout and fewer than `levels` in a message. -/
def SpecialForm.IsFaithful (form : SpecialForm) (levels : Nat) (values : FieldValues) : Prop :=
  match form with
  | wrapper kind => ((FieldValues.get? values 1).getD ((ValueType.scalar kind).zero 0)).isFinite = true
  | timestamp => (⟨integerAt values 1, integerAt values 2⟩ : Timestamp).normalized.isInRange = true
  | fieldMask => ∀ text, FieldMask.text? (textsAt values 1) = some text →
      text = "" ∨ [] ∉ text.toList.splitOn ','
  | value => ∀ json, form.toJson? values = some json →
      DynamicValue.levels 1 json ≤ maxNesting ∧ DynamicValue.levels 0 json < levels
  | struct | listValue => ∀ json, form.toJson? values = some json →
      DynamicValue.levels 1 json ≤ maxNesting + 1 ∧ DynamicValue.levels 0 json ≤ levels
  | any | duration | empty => True

namespace Schema

/-- A value of a type is determined by what `valueToJson?` shows of it, up to the bits of NaN, and the messages
in it nest at most `levels` deep, its own included.  The bytes in an `Any` are a message that starts anew with
`maxNesting + 1`. -/
inductive IsFaithful (schema : Schema) : Nat → ValueType → Value → Prop
  | scalar {levels : Nat} {type : ValueType} {value : Value} (h : value.isScalar = true) :
    IsFaithful schema levels type value
  | list {levels : Nat} {type : ValueType} {items : List Value}
    (h : ∀ item ∈ items, IsFaithful schema levels type item) : IsFaithful schema levels type (.list items)
  | message {levels : Nat} {type : MessageType} {values : FieldValues}
    (hform : SpecialForm.ofTypeName? type.name = none)
    (h : ∀ e ∈ values, ∀ f, type.field? e.1 = some f → IsFaithful schema levels f.type e.2)
    (hm : schema.message? type.name = some type) :
    IsFaithful schema (levels + 1) (.message type.name) (.message values)
  | special {levels : Nat} {type : MessageType} {values : FieldValues} {form : SpecialForm}
    (hform : SpecialForm.ofTypeName? type.name = some form) (hany : form ≠ .any)
    (h : ∀ laidOut, form.load? schema type values = some laidOut → form.IsFaithful (levels + 1) laidOut)
    (hm : schema.message? type.name = some type) :
    IsFaithful schema (levels + 1) (.message type.name) (.message values)
  | any {levels : Nat} {type : MessageType} {values : FieldValues}
    (hform : SpecialForm.ofTypeName? type.name = some .any)
    (h : ∀ laidOut payload inner, SpecialForm.any.load? schema type values = some laidOut →
      (nameInTypeAddress? (SpecialForm.textAt laidOut 1)).bind schema.lookup? = some payload →
      schema.decode? payload (SpecialForm.bytesAt laidOut 2) = some inner →
      IsFaithful schema (maxNesting + 1) (.message payload.name) (.message inner))
    (hm : schema.message? type.name = some type) :
    IsFaithful schema (levels + 1) (.message type.name) (.message values)

variable {schema : Schema} {g : Binary64 → Binary64} {levels : Nat} {type : MessageType}

/-- What `defaultToJson` shows for a field without presence is read back. -/
theorem comesBack_default (hs : schema.IsPlain) (hw : type.IsWired schema) {f : MessageField}
    (hf : f ∈ type.fields) (hp : f.IsPlain) (hshape : f.shape ≠ .map) (hpresence : f.presence = false)
    (hsize : (schema.defaultToJson f).size < 2 ^ 56) :
    schema.ComesBack g levels f.shape f.type (schema.defaultToJson f) := by
  have hadmits := hw.admits hf
  have hwired := hw.wired f hf
  rw [defaultToJson] at hsize ⊢
  cases hshape' : f.shape with
  | map => exact absurd hshape' hshape
  | list =>
    rw [hshape'] at hsize
    exact comesBack_list hs.toIsTyped hadmits.single hsize fun item h => absurd h List.not_mem_nil
  | single =>
    have hmessage : f.type.isMessage = false := by
      rw [hp.presence, hshape', beq_self_eq_true, Bool.true_and, Bool.or_eq_false_iff] at hpresence
      exact hpresence.1
    have hholds := hshape' ▸ holds_default hwired hadmits hmessage
    rw [hshape'] at hsize hadmits
    dsimp only at hsize ⊢
    cases htype : f.type with
    | scalar kind =>
      rw [htype] at hsize hholds
      exact comesBack_scalar (hholds.of_scalar? rfl) hsize
    | enum name =>
      rw [htype] at hadmits hholds
      exact comesBack_enum hs hadmits.2 hholds
    | message name =>
      rw [htype] at hmessage
      cases hmessage

end Schema

/-- An ordinary message shows an object that is read back, if what it shows of each of its fields is. -/
theorem MessageType.IsOrdinary.comesBack {schema : Schema} (g : Binary64 → Binary64) (levels : Nat)
    {type : MessageType} (hs : schema.IsPlain) (ht : type.IsOrdinary schema)
    (hplain : ∀ f ∈ type.fields, f.shape ≠ .map ∧ f.oneof = none) {values : FieldValues}
    (h : type.Holds schema values) {json : Json}
    (hjson : schema.valueToJson? schema.unpackAny? (.message type.name) (.message values) = some json)
    (hback : ∀ e ∈ values, ∀ f, type.field? e.1 = some f → ∀ json, json.size < 2 ^ 56 →
      schema.valueToJson? schema.unpackAny? f.type e.2 = some json →
      schema.ComesBack g levels f.shape f.type json) :
    ∃ members, json = .obj members ∧ schema.MembersComeBack g levels type members := by
  have hw := hs.types _ type ht.message
  have hp := hs.plain _ type ht.message
  obtain ⟨members, rfl, hsorted, hdeclared, hshown⟩ := ht.exists_members h.sorted h.found hjson
  refine ⟨members, rfl, hsorted, hdeclared, fun f hf hpresence => ?_, fun f hf json hget hsmall => ?_⟩
  · have hmember := hshown f hf
    by_contra hnone
    rw [Bool.not_eq_true, Option.isSome_eq_false_iff, Option.isNone_iff_eq_none] at hnone
    rw [hnone, Schema.memberToJson?, hpresence] at hmember
    split at hmember
    · obtain ⟨json, -, hnil⟩ := Option.map_eq_some_iff.mp hmember
      cases hnil
    · cases hmember
  · have hmember := hshown f hf
    rw [hget, Schema.memberToJson?] at hmember
    split at hmember
    · rename_i value hvalue
      obtain ⟨own, hown, heq⟩ := Option.map_eq_some_iff.mp hmember
      obtain rfl : own = json := by simpa using heq
      exact hback _ (FieldValues.mem_of_get?_eq_some hvalue) f (ht.field?_number hf) own hsmall hown
    · split at hmember
      · cases hmember
      · rename_i hpresence
        cases hmember
        exact Schema.comesBack_default hs hw hf (hp.fields f hf) (hplain f hf).1
          (Bool.eq_false_iff.mpr hpresence) hsmall

namespace SpecialForm

/-- What fields in the layout of a form other than `Any` show is read back, if they are `IsFaithful`. -/
theorem exists_readsBack {form : SpecialForm} {schema : Schema} {g : Binary64 → Binary64} {levels : Nat}
    {type : MessageType} (hs : schema.IsCompiled) (hm : schema.message? type.name = some type)
    (hform : ofTypeName? type.name = some form) (hany : form ≠ any)
    (hzero : g Binary64.zero.neg = g Binary64.zero) (hlevels : 0 < levels) {values : FieldValues}
    (h : form.layout.Holds layouts values) (hfaithful : form.IsFaithful levels values) {json : Json}
    (hjson : form.toJson? values = some json) (hsize : json.size < 2 ^ 56) :
    ∃ laidOut stored, form.ReadsBack schema type g levels json laidOut stored := by
  have hflat : form.isFlat = true → (∃ laidOut, form.Returns g json laidOut) →
      ∃ laidOut stored, form.ReadsBack schema type g levels json laidOut stored := by
    rintro hflat ⟨laidOut, hreturns⟩
    have hl := hs.isAlike hm hform hflat
    exact ⟨laidOut, laidOut,
      hreturns.readsBack (hs.plain _ type hm) hl (hl.isFlat (isFlat_layout hflat)) hlevels⟩
  cases form with
  | any => exact absurd rfl hany
  | wrapper kind => exact hflat rfl (exists_returns_wrapper hzero h hfaithful hjson hsize)
  | empty => exact hflat rfl ⟨[], returns_empty hjson⟩
  | timestamp => exact hflat rfl (exists_returns_timestamp hfaithful hjson)
  | duration => exact hflat rfl (exists_returns_duration hjson)
  | fieldMask => exact hflat rfl (exists_returns_fieldMask hfaithful hjson hsize)
  | value =>
    obtain ⟨hlayout, hown⟩ := hfaithful json hjson
    rw [Schema.eq_typeName_of_form hform (show ofWellKnown? .value = some value from rfl)] at hm
    obtain ⟨_, _, _, hd⟩ := hs.exists_hasDynamics hm
    exact ⟨_, _, readsBack_value hd hjson hsize hlayout hown⟩
  | struct =>
    obtain ⟨hlayout, hown⟩ := hfaithful json hjson
    rw [Schema.eq_typeName_of_form hform (show ofWellKnown? .struct = some struct from rfl)] at hm
    obtain ⟨_, _, _, hd⟩ := hs.exists_hasDynamics_struct hm
    obtain ⟨more, -, rfl⟩ := Option.map_eq_some_iff.mp hjson
    rw [Json.ofMembers, DynamicValue.levels] at hlayout hown
    exact ⟨_, _, readsBack_struct hd hjson hsize (Nat.le_of_succ_le_succ hlayout) hown⟩
  | listValue =>
    obtain ⟨hlayout, hown⟩ := hfaithful json hjson
    rw [Schema.eq_typeName_of_form hform (show ofWellKnown? .listValue = some listValue from rfl)] at hm
    obtain ⟨_, _, _, hd⟩ := hs.exists_hasDynamics_list hm
    obtain ⟨items, -, rfl⟩ := Option.map_eq_some_iff.mp hjson
    rw [DynamicValue.levels] at hlayout hown
    exact ⟨_, _, readsBack_listValue hd hjson hsize (Nat.le_of_succ_le_succ hlayout) hown⟩

end SpecialForm

namespace Schema

variable {schema : Schema} {g : Binary64 → Binary64} {levels : Nat} {type : ValueType} {value : Value}

/-- What a scalar or a number of an enumeration shows is read back. -/
theorem IsPlain.comesBack_of_isScalar (hs : schema.IsPlain) {shape : FieldShape} (hscalar : value.isScalar = true)
    (hholds : schema.Holds shape type value) (ha : schema.Admits shape type)
    (hsize : (schema.scalarToJson type value).size < 2 ^ 56) :
    schema.ComesBack g levels shape type (schema.scalarToJson type value) := by
  cases hholds with
  | @scalar _ kind _ hk hvalue =>
    cases type with
    | scalar own =>
      cases hk
      exact comesBack_scalar hvalue hsize
    | enum name => exact comesBack_enum hs ha.2 (.scalar hk hvalue)
    | message name => cases hk
  | message | list | map => cases hscalar

section

variable {type : MessageType} {values : FieldValues} {json : Json}

/-- What a message with a form other than `Any` shows is read back, if the fields in its layout are
`IsFaithful`. -/
theorem IsCompiled.comesBack_special (hs : schema.IsCompiled) (hzero : g Binary64.zero.neg = g Binary64.zero)
    (hm : schema.message? type.name = some type) {form : SpecialForm}
    (hform : SpecialForm.ofTypeName? type.name = some form) (hany : form ≠ .any) (hpositive : 0 < levels)
    (hlevels : levels ≤ maxNesting + 1)
    (hfaithful : ∀ laidOut, form.load? schema type values = some laidOut → form.IsFaithful levels laidOut)
    (hjson : schema.valueToJson? schema.unpackAny? (.message type.name) (.message values) = some json)
    (hsize : json.size < 2 ^ 56) : schema.ComesBack g levels .single (.message type.name) json := by
  rw [valueToJson?] at hjson
  simp only [ValueType.name, hm, hform, specialToJson?, Option.bind_eq_bind, Option.bind_eq_some_iff] at hjson
  obtain ⟨laidOut, hload, hjson⟩ := hjson
  have hshown : form.toJson? laidOut = some json := by
    cases form with
    | any => exact absurd rfl hany
    | _ => exact hjson
  obtain ⟨again, stored, hback⟩ := SpecialForm.exists_readsBack hs hm hform hany hzero hpositive
    (SpecialForm.holdsFields_of_decode? hload).1 (hfaithful laidOut hload) hshown hsize
  exact comesBack_form hs.toIsTyped hm hform hany hlevels hsize hback

/-- What an `Any` shows is read back, if what the message in its bytes shows is. -/
theorem IsCompiled.comesBack_unpacked (hs : schema.IsCompiled) (hzero : g Binary64.zero.neg = g Binary64.zero)
    (hm : schema.message? type.name = some type) (hform : SpecialForm.ofTypeName? type.name = some .any)
    (hpositive : 0 < levels)
    (hinner : ∀ laidOut payload inner, SpecialForm.any.load? schema type values = some laidOut →
      (nameInTypeAddress? (SpecialForm.textAt laidOut 1)).bind schema.lookup? = some payload →
      schema.decode? payload (SpecialForm.bytesAt laidOut 2) = some inner →
      schema.message? payload.name = some payload → payload.Holds schema inner → ∀ json,
      schema.valueToJson? schema.unpackAny? (.message payload.name) (.message inner) = some json →
      json.size < 2 ^ 56 → schema.ComesBack g (maxNesting + 1) .single (.message payload.name) json)
    (hjson : schema.valueToJson? schema.unpackAny? (.message type.name) (.message values) = some json)
    (hsize : json.size < 2 ^ 56) : schema.ComesBack g levels .single (.message type.name) json := by
  rw [valueToJson?] at hjson
  simp only [ValueType.name, hm, hform, specialToJson?, Option.bind_eq_bind, Option.bind_eq_some_iff,
    Option.pure_def, Option.some.injEq] at hjson
  obtain ⟨laidOut, hload, members, hunpack, rfl⟩ := hjson
  rw [unpackAny?_eq] at hunpack
  obtain ⟨payload, hpayload, hunpack⟩ := Option.bind_eq_some_iff.mp hunpack
  obtain ⟨inner, hdecode, hunpack⟩ := Option.bind_eq_some_iff.mp hunpack
  obtain ⟨json, hwithin, hmembers⟩ := Option.bind_eq_some_iff.mp hunpack
  have hp : schema.message? payload.name = some payload := by
    obtain ⟨name, -, hlookup⟩ := Option.bind_eq_some_iff.mp hpayload
    exact hs.toIsLinked.message?_of_lookup? hlookup
  have hheld := (hs.types.holdsFields_of_decode? (hs.types _ payload hp) hdecode).1
  -- The bytes within are fewer, so that nothing is lost by unpacking no more than these.
  have hless := schema.unpacksLess_unpackWithin (schema.encode payload inner).length
    (SpecialForm.bytesAt laidOut 2).length
  have hshown := hless.message_of_holds hs hp hheld (Nat.le_refl _) hwithin
  obtain ⟨packed, hobject, -, hpacked, -⟩ := hs.exists_packed hp hheld hshown hmembers
    (SpecialForm.textAt laidOut 1)
  have hsmall : json.size < 2 ^ 56 := by
    rw [hobject] at hsize
    omega
  exact hs.comesBack_any hzero hpositive hm hform hp hpayload hheld hshown hmembers
    (hinner laidOut payload inner hload hpayload hdecode hp hheld json hshown hsmall) hsize

end

/-- What `valueToJson?` shows of a value that is `IsFaithful` is read back, as a value that shows the same up to
`g`. -/
theorem IsFaithful.comesBack (hs : schema.IsCompiled) (hzero : g Binary64.zero.neg = g Binary64.zero)
    (h : schema.IsFaithful levels type value) (hlevels : levels ≤ maxNesting + 1) {shape : FieldShape}
    (hholds : schema.Holds shape type value) (ha : schema.Admits shape type) {json : Json}
    (hjson : schema.valueToJson? schema.unpackAny? type value = some json) (hsize : json.size < 2 ^ 56) :
    schema.ComesBack g levels shape type json := by
  induction h generalizing shape json with
  | @scalar levels type value hscalar =>
    rw [valueToJson?_of_isScalar type hscalar, Option.some.injEq] at hjson
    subst hjson
    exact hs.toIsPlain.comesBack_of_isScalar hscalar hholds ha hsize
  | @list levels type items hitems ih =>
    obtain ⟨jsons, hjsons, rfl⟩ := Option.map_eq_some_iff.mp hjson
    rw [itemsToJson?_eq_mapM] at hjsons
    cases hholds with
    | scalar hk hvalue => cases Scalar.isScalar_of_holds hvalue
    | list hholds =>
      refine comesBack_list hs.toIsTyped ha.single hsize fun item hitem => ?_
      obtain ⟨value, hvalue, hitemJson⟩ := exists_of_mem_mapM hjsons hitem
      have hsmall := Json.size_le_sizeOfItems hitem
      rw [Json.size] at hsize
      exact ih value hvalue hlevels (hholds value hvalue) ha.single hitemJson (by omega)
  | @message levels type values hform hfields hm ih =>
    have hw := hs.types _ type hm
    have hplain := hs.ordinary hm hform
    have ht : type.IsOrdinary schema := ⟨hw.toIsLinked, hm, hform⟩
    obtain ⟨rfl, hown⟩ := hholds.of_message hm
    obtain ⟨members, rfl, hmembers⟩ :=
      ht.comesBack g levels hs.toIsPlain hplain hown hjson fun e he f hf json hsmall hvalue =>
        ih e he f hf (by omega) (hown.fields e he f hf) (hw.admits (List.mem_of_find?_eq_some hf)) hvalue hsmall
    exact ht.comesBack_obj hs.toIsTyped hw (hs.plain _ type hm) (fun f hf => (hplain f hf).2) hmembers hsize
  | special hform hany hlaidOut hm =>
    obtain ⟨rfl, -⟩ := hholds.of_message hm
    exact hs.comesBack_special hzero hm hform hany (Nat.succ_pos _) hlevels hlaidOut hjson hsize
  | any hform hinner hm ih =>
    obtain ⟨rfl, -⟩ := hholds.of_message hm
    refine hs.comesBack_unpacked hzero hm hform (Nat.succ_pos _) (fun laidOut payload inner hload hpayload
      hdecode hp hheld json hshown hsmall => ?_) hjson hsize
    exact ih laidOut payload inner hload hpayload hdecode (Nat.le_refl _)
      (holds_message_iff.mpr ⟨payload, inner, hp, rfl, hheld⟩) (admits_message hp) hshown hsmall

/-- Where an ordinary message is faithful with a level more, so is each of its fields. -/
theorem IsFaithful.of_message {type : MessageType} (ht : type.IsOrdinary schema) {values : FieldValues}
    (h : schema.IsFaithful (levels + 1) (.message type.name) (.message values)) :
    ∀ e ∈ values, ∀ f, type.field? e.1 = some f → schema.IsFaithful levels f.type e.2 := by
  generalize htype : ValueType.message type.name = valueType at h
  cases h with
  | scalar h => cases h
  | message hform h hm =>
    rw [ValueType.message.injEq] at htype
    rw [← htype, ht.message, Option.some.injEq] at hm
    exact hm ▸ h
  | special hform =>
    rw [ValueType.message.injEq] at htype
    rw [← htype, ht.form] at hform
    cases hform
  | any hform =>
    rw [ValueType.message.injEq] at htype
    rw [← htype, ht.form] at hform
    cases hform

end Schema

end Tagwire
