import Tagwire.Proofs.Mapping.Layouts
import Tagwire.Proofs.Schema.Plain

/-!
# The bundled types of a compiled schema

A schema that a compilation loads has, beside the records of its definitions, types of bundled documents only.
A message type that goes by a bundled name is the one that is declared under it; so the messages with a JSON
form of their own have the fields of their layouts, and no other message has a map or a oneof.
-/

set_option autoImplicit false

namespace Tagwire

open Schema

namespace Schema

/-! ## What bundled declarations link to -/

/-- The type that a reference links to: its scalar, or the `linkedType` of its full name without the leading
dot. -/
def TypeReference.linked : TypeReference → ValueType
  | .scalar kind => .scalar kind
  | .named path => linkedType (String.ofList (path.toList.drop 1))

/-- The message type that a plain declaration links to, field by field. -/
def MessageDeclaration.linked (message : MessageDeclaration) : MessageType :=
  ⟨message.name, message.fields.map fun f => f.linkedAs f.type.linked⟩

namespace Bundled

/-- The messages of the importable documents. -/
def messages : List MessageDeclaration := importable.flatMap fun f => f.declarations.messages

/-- Is the name that of one of the importable messages? -/
def isMessageName (name : String) : Bool := messages.any fun m => m.name == name

/-- Is the reference a scalar, or the full name of an importable message or enumeration, with a leading dot? -/
def isReference : TypeReference → Bool
  | .scalar _ => true
  | .named path =>
    let name := String.ofList (path.toList.drop 1)
    path.toList.head? == some '.' && !isIdentifier name &&
      linkedType name == if isMessageName name then .message name else .enum name

/-- The type of each field of an importable message is such a reference. -/
theorem isReference_of_mem : ∀ m ∈ messages, ∀ f ∈ m.fields, isReference f.type = true := by
  decide +kernel

/-- The name of an importable enumeration is that of no importable message. -/
theorem isMessageName_of_enum : ∀ f ∈ importable, ∀ e ∈ f.declarations.enums, isMessageName e.name = false := by
  decide

end Bundled

/-- The messages of the file have identifiers for names and for those of their fields, and neither maps nor
oneofs; and the file declares no enumerations. -/
structure SchemaFile.IsOwn (file : SchemaFile) : Prop where
  messages : ∀ m ∈ file.declarations.messages, isIdentifier m.name = true ∧
    ∀ f ∈ m.fields, f.shape ≠ .map ∧ f.oneof = none
  names : ∀ m ∈ file.declarations.messages, ∀ f ∈ m.fields, isIdentifier f.name = true
  enums : file.declarations.enums = []

/-- Each file is plain, and is either an importable document or one with `IsOwn`. -/
structure AreOwn (files : List SchemaFile) : Prop where
  plain : ∀ f ∈ files, f.IsPlain
  cases : ∀ f ∈ files, f ∈ Bundled.importable ∨ f.IsOwn

section

variable {files : List SchemaFile} {file : SchemaFile} {schema : Schema}

/-- A reference with `isReference` in an importable document links to its `linked` type. -/
theorem AreOwn.eq_linked (hfiles : AreOwn files) (hf : file ∈ files) {scope : String}
    {reference : TypeReference} (href : Bundled.isReference reference = true) {type : ValueType}
    (h : (Visible.ofFile files file).type? scope reference = some type) : type = reference.linked := by
  cases reference with
  | scalar kind =>
    cases h
    rfl
  | named path =>
    obtain ⟨name, hname, h⟩ := Option.bind_eq_some_iff.mp h
    cases h
    unfold Bundled.isReference at href
    simp only [Bool.and_eq_true, beq_iff_eq, Bool.not_eq_true'] at href
    obtain ⟨⟨hhead, hid⟩, hlinked⟩ := href
    obtain ⟨rest, hrest⟩ : ∃ rest, path.toList = '.' :: rest := by
      cases hpath : path.toList with
      | nil =>
        rw [hpath] at hhead
        cases hhead
      | cons c rest =>
        rw [hpath, List.head?_cons, Option.some.injEq] at hhead
        exact ⟨rest, by rw [hhead]⟩
    have hmeant := Visible.of_resolve? hname
    obtain rfl : String.ofList (path.toList.drop 1) = name := by
      unfold Visible.resolve? at hname
      have hsplit : ('.' :: rest).splitOn '.' = [] :: rest.splitOn '.' := List.splitOn_append_cons_self [] _
      rw [hrest, hsplit] at hname
      rw [hrest]
      exact Option.some.inj (Option.ite_none_right_eq_some.mp hname).2
    rw [TypeReference.linked, hlinked]
    have hdeclared : ∀ m, m ∈ (Visible.ofFile files file).messages →
        m.name = String.ofList (path.toList.drop 1) → Bundled.isMessageName m.name = true := by
      intro m hm heq
      obtain ⟨g, hg, hm⟩ := List.mem_flatMap.mp hm
      rcases hfiles.cases g (mem_of_mem_visibleFiles hf g hg) with hbundled | hown
      · exact List.any_eq_true.mpr ⟨m, List.mem_flatMap.mpr ⟨g, hbundled, hm⟩, beq_self_eq_true _⟩
      · rw [← heq, (hown.messages m hm).1] at hid
        cases hid
    cases hm : (Visible.ofFile files file).isMessage (String.ofList (path.toList.drop 1)) with
    | true =>
      obtain ⟨m, hmem, heq⟩ := List.any_eq_true.mp hm
      rw [beq_iff_eq] at heq
      rw [← heq, hdeclared m hmem heq, if_pos rfl]
    | false =>
      rw [hm, Bool.false_or] at hmeant
      obtain ⟨e, hfind, heq⟩ := List.find?_isSome.mp hmeant
      obtain ⟨g, hg, he⟩ := List.mem_flatMap.mp hfind
      rw [beq_iff_eq] at heq
      rcases hfiles.cases g (mem_of_mem_visibleFiles hf g hg) with hbundled | hown
      · rw [← heq, Bundled.isMessageName_of_enum g hbundled e he]
      · rw [hown.enums] at he
        cases he

/-- A message of an importable document links to its `linked` type. -/
theorem AreOwn.linked_of_link? (hfiles : AreOwn files) (h : ofFiles? files = some schema) (hf : file ∈ files)
    (hbundled : file ∈ Bundled.importable) {m : MessageDeclaration} (hm : m ∈ file.declarations.messages)
    {type : MessageType} (hl : m.link? file.dialect (Visible.ofFile files file) = some type) :
    type = m.linked := by
  unfold MessageDeclaration.link? at hl
  obtain ⟨fields, hfields, hl⟩ := Option.bind_eq_some_iff.mp hl
  obtain ⟨-, hl⟩ := Option.ite_none_right_eq_some.mp hl
  cases hl
  refine congrArg (MessageType.mk m.name) ?_
  rw [← List.map_id fields]
  refine map_eq_map_of_mapM hfields fun f hfield g hg => ?_
  rw [(hfiles.plain file hf).dialect] at hg
  obtain ⟨type, htype, rfl⟩ := ((hfiles.plain file hf).fields m hm f hfield).eq_linkedAs hg
    (firstNumber_eq_zero h hfiles.plain hf)
  rw [hfiles.eq_linked hf (Bundled.isReference_of_mem m (List.mem_flatMap.mpr ⟨file, hbundled, hm⟩) f hfield)
    htype]
  rfl

end

/-! ## Compiled schemas -/

/-- The schema is plain, and each message type is the `linked` one of an importable message or has an identifier
for its name and neither maps nor oneofs; its record keys come from identifiers. -/
structure IsCompiled (schema : Schema) : Prop extends schema.IsPlain where
  cases : ∀ name type, schema.message? name = some type →
    (∃ m ∈ Bundled.messages, m.name = name ∧ type = m.linked) ∨
      isIdentifier name = true ∧ ∀ f ∈ type.fields, f.shape ≠ .map ∧ f.oneof = none
  keys : ∀ name type, schema.message? name = some type → ∀ f ∈ type.fields,
    ∃ own, isIdentifier own = true ∧ f.jsonName = lowerCamel own

namespace Bundled

/-- The number, the type, the shape and the oneof of a field. -/
def traits (f : MessageField) : Nat × ValueType × FieldShape × Option String :=
  (f.number, f.type, f.shape, f.oneof)

/-- An importable message with a flat form has the traits of its layout. -/
theorem traits_spec : ∀ m ∈ messages, ∀ form ∈ (SpecialForm.ofTypeName? m.name).toList,
    form.isFlat = true → m.linked.fields.map traits = form.layout.fields.map traits := by
  decide +kernel

/-- The traits of the six fields of `Value`. -/
def choices : List (Nat × ValueType × FieldShape × Option String) :=
  [(1, .enum nullEnum, .single, some "kind"), (2, .scalar .double, .single, some "kind"),
   (3, .scalar .string, .single, some "kind"), (4, .scalar .boolean, .single, some "kind"),
   (5, .message WellKnown.struct.typeName, .single, some "kind"),
   (6, .message WellKnown.listValue.typeName, .single, some "kind")]

/-- The traits of the fields of `Value`, `Struct`, `ListValue` and the entry type of `Struct`, by their
names. -/
def dynamics : List (String × List (Nat × ValueType × FieldShape × Option String)) :=
  [(WellKnown.value.typeName, choices),
   (WellKnown.struct.typeName, [(1, .message fieldsEntry.name, .map, none)]),
   (WellKnown.listValue.typeName, [(1, .message WellKnown.value.typeName, .list, none)]),
   (fieldsEntry.name,
    [(1, .scalar .string, .single, none), (2, .message WellKnown.value.typeName, .single, none)])]

/-- The importable messages with these names have these traits. -/
theorem dynamics_spec : ∀ d ∈ dynamics, isIdentifier d.1 = false ∧
    ∀ m ∈ messages, m.name = d.1 → m.linked.fields.map traits = d.2 := by
  decide

/-- The name of each field of an importable message is an identifier. -/
theorem isIdentifier_fields : ∀ m ∈ messages, ∀ f ∈ m.fields, isIdentifier f.name = true := by
  decide

/-- The name of an importable message has no slash. -/
theorem slash_not_mem_names : ∀ m ∈ messages, '/' ∉ m.name.toList := by
  decide

/-- An importable message without a special form has neither maps nor oneofs. -/
theorem ordinary_spec : ∀ m ∈ messages, SpecialForm.ofTypeName? m.name = none →
    ∀ f ∈ m.fields, f.shape ≠ .map ∧ f.oneof = none := by
  decide

end Bundled

namespace IsCompiled

variable {schema : Schema} {name : String} {type : MessageType} {form : SpecialForm}

/-- A message type of a compiled schema without a special form has neither maps nor oneofs. -/
theorem ordinary (h : schema.IsCompiled) (hm : schema.message? name = some type)
    (hform : SpecialForm.ofTypeName? name = none) : ∀ f ∈ type.fields, f.shape ≠ .map ∧ f.oneof = none := by
  rcases h.cases name type hm with ⟨m, hmem, rfl, rfl⟩ | ⟨-, hfields⟩
  · intro g hg
    obtain ⟨f, hf, rfl⟩ := List.mem_map.mp hg
    exact Bundled.ordinary_spec m hmem hform f hf
  · exact hfields

/-- The name of a message type of a compiled schema has no slash. -/
theorem slash_not_mem (h : schema.IsCompiled) (hm : schema.message? name = some type) : '/' ∉ name.toList := by
  rcases h.cases name type hm with ⟨m, hmem, rfl, -⟩ | ⟨hid, -⟩
  · exact Bundled.slash_not_mem_names m hmem
  · exact not_mem_of_isIdentifier (by decide) hid

/-- The record key of a field of a compiled schema is not `@type`. -/
theorem jsonName_ne (h : schema.IsCompiled) (hm : schema.message? name = some type) {f : MessageField}
    (hf : f ∈ type.fields) : f.jsonName ≠ anyTypeKey := by
  obtain ⟨own, hid, hkey⟩ := h.keys name type hm f hf
  rw [hkey]
  intro heq
  -- The key begins with a character that no field name has.
  have hmem : '@' ∈ lowerCamelChars false own.toList := by
    rw [lowerCamel] at heq
    rw [← String.toList_ofList (l := lowerCamelChars false own.toList), heq]
    decide
  exact not_mem_of_isIdentifier (by decide) hid (mem_of_mem_lowerCamelChars (by decide) hmem)

/-- A message type of a compiled schema with a special form is the `linked` one of an importable message. -/
theorem exists_of_form (h : schema.IsCompiled) (hm : schema.message? name = some type)
    (hform : SpecialForm.ofTypeName? name = some form) :
    ∃ m ∈ Bundled.messages, m.name = name ∧ type = m.linked := by
  refine (h.cases name type hm).resolve_right fun ⟨hid, _⟩ => ?_
  rw [SpecialForm.ofTypeName?, ofTypeName?_identifier hid] at hform
  cases hform

/-- A message type that is listed in `dynamics` has under each of its numbers a plain field with the listed
traits. -/
theorem exists_field? (h : schema.IsCompiled) (hm : schema.message? name = some type)
    {traits : List (Nat × ValueType × FieldShape × Option String)} (hd : (name, traits) ∈ Bundled.dynamics)
    {number : Nat} {own : ValueType × FieldShape × Option String}
    (hown : traits.find? (fun t => t.1 == number) = some (number, own)) :
    ∃ f, type.field? number = some f ∧ f.IsPlain ∧ Bundled.traits f = (number, own) := by
  obtain ⟨hid, htraits⟩ := Bundled.dynamics_spec _ hd
  have hfields : type.fields.map Bundled.traits = traits := by
    rcases h.cases name type hm with ⟨m, hmem, hname, rfl⟩ | ⟨hname, -⟩
    · exact htraits m hmem hname
    · rw [hid] at hname
      cases hname
  rw [← hfields, List.find?_map, Option.map_eq_some_iff] at hown
  obtain ⟨f, hf, hown⟩ := hown
  exact ⟨f, hf, (h.plain name type hm).fields f (List.mem_of_find?_eq_some hf), hown⟩

/-- A message type of a compiled schema with a flat form is alike the layout of this form. -/
theorem isAlike (h : schema.IsCompiled) (hm : schema.message? name = some type)
    (hform : SpecialForm.ofTypeName? name = some form) (hflat : form.isFlat = true) :
    type.IsAlike form.layout := by
  obtain ⟨m, hmem, rfl, rfl⟩ := h.exists_of_form hm hform
  have htraits := Bundled.traits_spec m hmem form (by rw [hform]; simp) hflat
  rw [← List.forall₂_eq_eq_eq, List.forall₂_map_left_iff, List.forall₂_map_right_iff] at htraits
  refine htraits.imp fun f g heq => ?_
  unfold Bundled.traits at heq
  simp only [Prod.mk.injEq] at heq
  exact ⟨heq.1, heq.2.1, heq.2.2.1, heq.2.2.2⟩

end IsCompiled

/-- Files with `AreOwn` link to a schema that `IsCompiled`, if it is plain. -/
theorem AreOwn.isCompiled {files : List SchemaFile} {schema : Schema} (hfiles : AreOwn files)
    (h : ofFiles? files = some schema) (hs : schema.IsPlain) : schema.IsCompiled := by
  refine ⟨hs, fun name type htype => ?_, fun name type htype g hg => ?_⟩
  all_goals
    obtain ⟨file, hf, m, hm, hlink, hname⟩ := exists_link?_of_mem h (Entries.mem_of_get?_eq_some htype)
    dsimp only at hlink hname
  · have hdeclared := (MessageDeclaration.isLinked_of_link? hlink).1
    rcases hfiles.cases file hf with hbundled | hown
    · exact .inl ⟨m, List.mem_flatMap.mpr ⟨file, hbundled, hm⟩, hdeclared.symm.trans hname,
        hfiles.linked_of_link? h hf hbundled hm hlink⟩
    · obtain ⟨hid, hfields⟩ := hown.messages m hm
      refine .inr ⟨hname ▸ hdeclared ▸ hid, fun g hg => ?_⟩
      obtain ⟨f, hfield, valueType, -, rfl⟩ := exists_linkedAs h hfiles.plain hf hm hlink hg
      exact hfields f hfield
  · obtain ⟨f, hfield, valueType, -, rfl⟩ := exists_linkedAs h hfiles.plain hf hm hlink hg
    refine ⟨f.name, ?_, rfl⟩
    rcases hfiles.cases file hf with hbundled | hown
    · exact Bundled.isIdentifier_fields m (List.mem_flatMap.mpr ⟨file, hbundled, hm⟩) f hfield
    · exact hown.names m hm f hfield

end Schema

/-- The file of a plain document has `IsOwn`. -/
theorem SchemaDocument.isOwn_file {document : SchemaDocument} (hd : document.IsPlain) :
    document.file.IsOwn := by
  refine ⟨fun m hm => ?_, fun m hm g hg => ?_, rfl⟩
  all_goals obtain ⟨b, hb, rfl⟩ := List.mem_map.mp hm
  · refine ⟨b.name.isIdentifier_text, fun g hg => ?_⟩
    obtain ⟨f, -, rfl⟩ := List.mem_map.mp hg
    refine ⟨?_, rfl⟩
    unfold SchemaField.declaration
    dsimp only
    split <;> decide
  · obtain ⟨f, hf, rfl⟩ := List.mem_map.mp hg
    exact (hd.fields f (List.mem_flatMap.mpr ⟨b, hb, hf⟩)).name

/-- The schema that the text of a compilation loads `IsCompiled`. -/
theorem CompiledSchema.isCompiled_of_loadText {definitions : List RecordDefinition} {compiled : CompiledSchema}
    (h : compile definitions = .ok compiled) {schema : Schema}
    (hload : SchemaStore.loadText {} compiled.document.text = .ok ⟨some schema⟩) : schema.IsCompiled := by
  obtain ⟨loaded, hloaded, hstore⟩ := SchemaStore.loadText_eq_ok_iff.mp hload
  cases hstore
  have hw := (Compilation.isSound_of_compile h).toIsWellFormed
  obtain ⟨files, hlinked, hplain, hcases⟩ := hw.exists_files hloaded
  refine AreOwn.isCompiled ⟨hplain, fun f hf => (hcases f hf).imp_right ?_⟩ hlinked
    (CompiledSchema.isPlain_of_loadText h hload)
  rintro rfl
  exact SchemaDocument.isOwn_file hw.isPlain

end Tagwire
