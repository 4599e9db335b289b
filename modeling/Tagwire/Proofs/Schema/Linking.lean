import Tagwire.Proofs.Entries
import Tagwire.Proofs.Except
import Tagwire.Proofs.Schema.Resolution

/-!
# Linking a rendered document

A well-formed document links, and so loads, exactly when its field numbers are permitted and no two fields
of a message have names that agree but for underscores and letter case.  Its schema then has, beside the
bundled types, one message type for each block, whose fields are those of its lines.
-/

set_option autoImplicit false

namespace Tagwire

open Schema

/-! ## Linked types -/

/-- Is it the type of a message? -/
def ValueType.isMessage : ValueType → Bool
  | .message _ => true
  | _ => false

/-- The message field that a line links to, with the `linkedType` of its type name. -/
def SchemaField.linked (field : SchemaField) : MessageField :=
  let type := linkedType field.typeName
  { name := field.name
    jsonName := lowerCamel field.name
    number := field.number
    type
    shape := if field.repeated then .list else .single
    presence := !field.repeated && type.isMessage
    packed := field.repeated && type.isPackable
    default := if field.repeated then .list [] else type.zero 0 }

/-- The message type that a block links to, field by field. -/
def MessageBlock.linked (block : MessageBlock) : MessageType :=
  ⟨block.name.text, block.fields.map SchemaField.linked⟩

/-- The number is one that a field may have: from 1 to `2 ^ 29 - 1`, and not from 19000 to 19999. -/
def IsPermitted (number : Nat) : Prop :=
  1 ≤ number ∧ number < 2 ^ 29 ∧ ¬ (19000 ≤ number ∧ number ≤ 19999)

/-- All numbers of the document are permitted, and the folded names of each block are distinct. -/
structure SchemaDocument.IsLinkable (document : SchemaDocument) : Prop where
  numbers : ∀ f ∈ document.fields, IsPermitted f.number
  names : ∀ b ∈ document.messages, (b.fields.map fun f => foldedName f.name).Nodup

/-! ## Types -/

namespace WellKnown

/-- The full names of the well-known types are distinct. -/
theorem typeName_nodup : (WellKnown.all.map typeName).Nodup :=
  List.Nodup.of_map Schema.Bundled.textNumber (by decide)

/-- Under the full name of a well-known type `ofTypeName?` finds it. -/
theorem ofTypeName?_typeName (kind : WellKnown) : ofTypeName? kind.typeName = some kind := by
  have hall : kind ∈ WellKnown.all := by cases kind <;> decide
  have hsome : (ofTypeName? kind.typeName).isSome = true := by
    rw [ofTypeName?, List.find?_isSome]
    exact ⟨kind, hall, by simp⟩
  obtain ⟨other, hother⟩ := Option.isSome_iff_exists.mp hsome
  have hname : other.typeName = kind.typeName := by simpa using List.find?_some hother
  rw [hother, List.inj_on_of_nodup_map typeName_nodup (List.mem_of_find?_eq_some hother) hall hname]

end WellKnown

/-- No bundled name is the keyword of a scalar. -/
theorem ofKeyword?_fullName (short : String) : Scalar.ofKeyword? (Bundled.fullName short) = none := by
  by_contra hsome
  obtain ⟨kind, hk⟩ := Option.ne_none_iff_exists'.mp hsome
  exact Bundled.fullName_ne (isIdentifier_keyword kind) (eq_keyword_of_ofKeyword? hk)

/-- No name with `messageSuffix` is the keyword of a scalar. -/
theorem ofKeyword?_append_messageSuffix (stem : String) :
    Scalar.ofKeyword? (stem ++ messageSuffix) = none := by
  by_contra hsome
  obtain ⟨kind, hk⟩ := Option.ne_none_iff_exists'.mp hsome
  have hsuffix : messageSuffix.toList.isSuffixOf kind.keyword.toList = false := by
    cases kind <;> decide
  exact append_messageSuffix_ne hsuffix (eq_keyword_of_ofKeyword? hk)

/-- No identifier is the full name of a well-known type. -/
theorem ofTypeName?_identifier {name : String} (h : isIdentifier name = true) :
    WellKnown.ofTypeName? name = none := by
  unfold WellKnown.ofTypeName?
  rw [List.find?_eq_none]
  intro kind _ heq
  obtain ⟨short, hshort⟩ := Bundled.exists_fullName_typeName kind
  rw [hshort, beq_iff_eq] at heq
  exact Bundled.fullName_ne h heq

/-- The keyword of a scalar links to this scalar. -/
theorem linkedType_keyword (kind : Scalar) : linkedType kind.keyword = .scalar kind := by
  rw [linkedType, ofKeyword?_keyword]

/-- The full name of a well-known type links to its enumeration or its message. -/
theorem linkedType_typeName (kind : WellKnown) : linkedType kind.typeName =
    if kind.isEnum then .enum kind.typeName else .message kind.typeName := by
  obtain ⟨short, hshort⟩ := Bundled.exists_fullName_typeName kind
  have hkeyword : Scalar.ofKeyword? kind.typeName = none := hshort ▸ ofKeyword?_fullName short
  rw [linkedType, hkeyword, WellKnown.ofTypeName?_typeName]
  rfl

/-- An identifier with `messageSuffix` links to the message of this name. -/
theorem linkedType_message {name : String} (hid : isIdentifier name = true)
    (hsuffix : ∃ stem, name = stem ++ messageSuffix) : linkedType name = .message name := by
  obtain ⟨stem, rfl⟩ := hsuffix
  rw [linkedType, ofKeyword?_append_messageSuffix, ofTypeName?_identifier hid]
  rfl

/-- The type that a name links to has this name. -/
theorem name_linkedType (typeName : String) : (linkedType typeName).name = typeName := by
  unfold linkedType
  cases hk : Scalar.ofKeyword? typeName with
  | some kind => exact (eq_keyword_of_ofKeyword? hk).symm
  | none => dsimp only; split <;> rfl

/-- If the first number of each visible enumeration is zero, so is `firstNumber` of each type. -/
theorem Schema.FieldDeclaration.firstNumber_eq_zero {visible : Visible} {type : ValueType}
    (h : ∀ name e, visible.enum? name = some e → ∀ v ∈ e.values.head?, v.number = 0) :
    firstNumber visible type = 0 := by
  cases type with
  | scalar kind => rfl
  | message name => rfl
  | enum name =>
    dsimp only [firstNumber]
    cases he : visible.enum? name with
    | none => rfl
    | some e =>
      have hfirst := h name e he
      rw [Option.map_some]
      cases hv : e.values with
      | nil => rfl
      | cons v rest =>
        rw [hv] at hfirst
        exact hfirst v rfl

namespace SchemaDocument

variable {document : SchemaDocument}

/-- In the scope of each message of a well-formed document, `type?` finds for the type name of a line its
`linkedType`. -/
theorem type?_eq (hw : document.IsWellFormed) {b : MessageBlock} (hb : b ∈ document.messages)
    {typeName : String} (ht : document.IsType typeName) :
    document.visible.type? b.name.text (typeReference typeName) = some (linkedType typeName) := by
  cases ht with
  | scalar kind =>
    rw [linkedType_keyword, typeReference, ofKeyword?_keyword]
    rfl
  | wellKnown kind hpath =>
    obtain ⟨short, hshort⟩ := Bundled.exists_fullName_typeName kind
    obtain ⟨f, hf, hfpath, hdeclared⟩ := Bundled.exists_declaration kind
    have hseen : f ∈ document.importedFiles :=
      (mem_importedFiles_iff hw.toIsImporting).mpr ⟨hf, hfpath ▸ hpath⟩
    have hmessage : document.visible.isMessage kind.typeName = !kind.isEnum := by
      cases hk : kind.isEnum with
      | false =>
        rw [hk, if_neg Bool.false_ne_true] at hdeclared
        exact (isMessage_visible_iff _).mpr (.inr ⟨f, hseen, hdeclared⟩)
      | true =>
        rw [Bool.not_true, ← Bool.not_eq_true, isMessage_visible_iff]
        rintro (hmem | ⟨g, hg, hmem⟩)
        · obtain ⟨b', -, heq⟩ := List.mem_map.mp hmem
          rw [hshort] at heq
          exact Bundled.fullName_ne b'.name.isIdentifier_text heq.symm
        · exact Bundled.typeName_ne_message hk g
            ((mem_importedFiles_iff hw.toIsImporting).mp hg).1 hmem
    have hmeant : (document.visible.isMessage kind.typeName ||
        (document.visible.enum? kind.typeName).isSome) = true := by
      rw [hmessage]
      cases hk : kind.isEnum with
      | false => rfl
      | true =>
        rw [hk, if_pos rfl] at hdeclared
        exact (enum?_visible_isSome_iff _).mpr ⟨f, hseen, hdeclared⟩
    have hresolve := resolve?_fullName hw hb (hshort ▸ hmeant)
    rw [← hshort] at hresolve
    have hkeyword : Scalar.ofKeyword? kind.typeName = none := hshort ▸ ofKeyword?_fullName short
    rw [linkedType_typeName, typeReference, hkeyword]
    simp only [Visible.type?, hresolve, Option.bind_eq_bind, Option.bind_some, hmessage]
    cases kind.isEnum <;> rfl
  | @message b' hb' =>
    obtain ⟨stem, hstem⟩ := hw.names_suffix b' hb'
    have hkeyword : Scalar.ofKeyword? b'.name.text = none :=
      hstem ▸ ofKeyword?_append_messageSuffix stem
    have hmessage : document.visible.isMessage b'.name.text = true :=
      (isMessage_visible_iff _).mpr
        (.inl (List.mem_map_of_mem (f := fun b : MessageBlock => b.name.text) hb'))
    rw [linkedType_message b'.name.isIdentifier_text ⟨stem, hstem⟩, typeReference, hkeyword]
    simp only [Visible.type?, resolve?_identifier hw hb hb', Option.bind_eq_bind, Option.bind_some,
      hmessage, if_true]
    rfl

/-! ## Fields and messages -/

/-- The `firstNumber` of each type that a document sees is zero. -/
theorem firstNumber_eq (hi : document.IsImporting) (type : ValueType) :
    FieldDeclaration.firstNumber document.visible type = 0 := by
  refine FieldDeclaration.firstNumber_eq_zero fun name e he v hv => ?_
  obtain ⟨f, hf, hmem⟩ := List.mem_flatMap.mp (List.mem_of_find?_eq_some he)
  have hfirst := ((Bundled.declarations_spec f ((mem_importedFiles_iff hi).mp hf).1).2.2.2.2 e hmem).2.2
  rw [Option.mem_def.mp hv] at hfirst
  exact Option.some.inj hfirst

/-- The field that a line declares links to the `linked` field of the line. -/
theorem link?_declaration (hw : document.IsWellFormed) {b : MessageBlock}
    (hb : b ∈ document.messages) {f : SchemaField} (hf : f ∈ b.fields) :
    f.declaration.link? .proto3 document.visible b.name.text = some f.linked := by
  have htype := type?_eq hw hb (hw.types f (List.mem_flatMap.mpr ⟨b, hb, hf⟩))
  unfold FieldDeclaration.link?
  simp only [SchemaField.declaration, htype, Option.bind_eq_bind, Option.bind_some]
  cases hr : f.repeated with
  | true =>
    simp [FieldDeclaration.default?, settingOf?, Visible.admits, areOptionsValid, SchemaField.linked,
      FieldDeclaration.recordKey, textOptionOf?, FieldDeclaration.hasPresence, FieldDeclaration.isPacked,
      flagOf?, hr]
  | false =>
    simp [FieldDeclaration.default?, settingOf?, Visible.admits, areOptionsValid, SchemaField.linked,
      FieldDeclaration.recordKey, textOptionOf?, FieldDeclaration.hasPresence, FieldDeclaration.isPacked,
      flagOf?, hr, firstNumber_eq hw.toIsImporting]
    cases linkedType f.typeName <;> rfl

/-- The numbers of a block are free exactly if none is from 19000 to 19999. -/
theorem areNumbersFree_declaration (hw : document.IsWellFormed) {b : MessageBlock}
    (hb : b ∈ document.messages) : b.declaration.areNumbersFree = true ↔
      ∀ f ∈ b.fields, ¬ (19000 ≤ f.number ∧ f.number ≤ 19999) := by
  have hnumbers : b.declaration.fields.map FieldDeclaration.number =
      b.fields.map SchemaField.number := by
    simp [MessageBlock.declaration, SchemaField.declaration, Function.comp_def]
  have hforbidden : ∀ n : Nat, forbiddenNumbers.contains (n : Int) = false ↔
      ¬ (19000 ≤ n ∧ n ≤ 19999) := by
    intro n
    unfold forbiddenNumbers NumberRange.contains
    dsimp only
    rw [Bool.and_eq_false_iff, decide_eq_false_iff_not, decide_eq_false_iff_not]
    omega
  unfold MessageDeclaration.areNumbersFree
  rw [hnumbers]
  simp only [Bool.and_eq_true, decide_eq_true_eq, hw.numbers_nodup b hb, and_true, List.all_map,
    List.all_eq_true, Function.comp_apply, MessageBlock.declaration, List.append_nil, List.any_nil,
    Bool.not_false, Bool.not_eq_true', hforbidden]

/-- The keys of a block count as distinct exactly if its folded names are. -/
theorem areKeysDistinct_declaration (hw : document.IsWellFormed) {b : MessageBlock}
    (hb : b ∈ document.messages) : b.declaration.areKeysDistinct .proto3 = true ↔
      (b.fields.map fun f => foldedName f.name).Nodup := by
  have hkeys : b.declaration.fields.map FieldDeclaration.recordKey =
      b.fields.map fun f => lowerCamel f.name := by
    simp [MessageBlock.declaration, SchemaField.declaration, FieldDeclaration.recordKey, textOptionOf?,
      settingOf?, Function.comp_def]
  have hunset : (b.declaration.fields.filter fun f => (settingOf? f.options "json_name").isNone) =
      b.declaration.fields := by
    rw [List.filter_eq_self]
    intro f hf
    obtain ⟨g, -, rfl⟩ := List.mem_map.mp hf
    rfl
  have hfolded : (b.declaration.fields.map fun f => foldedName f.name) =
      b.fields.map fun f => foldedName f.name := by
    simp [MessageBlock.declaration, SchemaField.declaration, Function.comp_def]
  unfold MessageDeclaration.areKeysDistinct
  rw [hkeys, hunset, hfolded]
  simp [hw.keys_nodup b hb]

/-- The message that a block declares links exactly if no number is from 19000 to 19999 and its folded names are
distinct, and then to its `linked` type. -/
theorem link?_block (hw : document.IsWellFormed) {b : MessageBlock} (hb : b ∈ document.messages)
    (result : MessageType) :
    b.declaration.link? .proto3 document.visible = some result ↔
      ((∀ f ∈ b.fields, ¬ (19000 ≤ f.number ∧ f.number ≤ 19999)) ∧
        (b.fields.map fun f => foldedName f.name).Nodup) ∧ result = b.linked := by
  have hfields : b.declaration.fields.mapM
      (fun f => f.link? .proto3 document.visible b.declaration.name) =
      some (b.fields.map SchemaField.linked) := by
    rw [MessageBlock.declaration, List.mapM_map]
    exact mapM_eq_some_map fun f hf => link?_declaration hw hb hf
  unfold MessageDeclaration.link?
  rw [hfields]
  simp only [Option.bind_eq_bind, Option.bind_some]
  have hrest : document.visible.admits b.declaration.name .message b.declaration.options = true ∧
      (b.declaration.oneofs.all fun o =>
        document.visible.admits b.declaration.name .oneof o.options) = true :=
    ⟨rfl, rfl⟩
  rw [← areNumbersFree_declaration hw hb, ← areKeysDistinct_declaration hw hb, hrest.1, hrest.2,
    Bool.and_true, Bool.and_true]
  have hlinked : result = b.linked ↔ b.linked = result := eq_comm
  rw [hlinked, ← Bool.and_eq_true]
  split
  · rename_i hcond
    simp only [hcond, true_and, Option.pure_def, Option.some.injEq]
    rfl
  · rename_i hcond
    simp [hcond]

end SchemaDocument

end Tagwire
