import Tagwire.Proofs.Schema.Wired

/-!
# Compiled schemas on the wire

The bundled documents that can be imported, and the documents of compilations, are all in the present dialect
and set no options.  Whatever such documents link to is plain: lists are packed where they can be, every
default is zero, and every enumeration begins with zero.  The one map among them is that of a dynamic
structure.
-/

set_option autoImplicit false

namespace Tagwire

open Schema

namespace Schema

/-! ## Plain declarations -/

/-- A field without options, without the label `optional`, and no group, whose number is positive and below
`2 ^ 29`, and which is in no oneof if it is a list or a map. -/
structure FieldDeclaration.IsPlain (f : FieldDeclaration) : Prop where
  pos : 0 < f.number
  lt : f.number < 2 ^ 29
  options : f.options = []
  label : f.label ≠ some .optional
  grouped : f.grouped = false
  oneof : f.shape ≠ .single → f.oneof = none

/-- A `proto3` document whose fields are plain, whose only map is that of `Struct`, and in each of whose
enumerations the names are distinct. -/
structure SchemaFile.IsPlain (file : SchemaFile) : Prop where
  dialect : file.dialect = .proto3
  fields : ∀ m ∈ file.declarations.messages, ∀ f ∈ m.fields, f.IsPlain
  maps : ∀ m ∈ file.declarations.messages, ∀ f ∈ m.fields, f.shape = .map →
    file = Bundled.struct ∧ f.type = Bundled.typeNamed "Struct.FieldsEntry"
  names : ∀ e ∈ file.declarations.enums, (e.values.map EnumValueDeclaration.name).Nodup

/-! ## Plain fields -/

/-- The message field that a plain field links to, if its type links to `type`. -/
def FieldDeclaration.linkedAs (f : FieldDeclaration) (type : ValueType) : MessageField :=
  { name := f.name
    jsonName := lowerCamel f.name
    number := f.number
    type
    shape := f.shape
    presence := f.shape == .single && (type.isMessage || f.oneof.isSome)
    packed := f.shape == .list && type.isPackable
    oneof := f.oneof
    default := f.shape.zero type }

namespace FieldDeclaration.IsPlain

variable {f : FieldDeclaration} {visible : Visible} {scope : String}

/-- A plain field links to `linkedAs` of the type that its reference stands for. -/
theorem eq_linkedAs (h : f.IsPlain) {g : MessageField} (hl : f.link? .proto3 visible scope = some g)
    (hzero : ∀ type, firstNumber visible type = 0) :
    ∃ type, visible.type? scope f.type = some type ∧ g = f.linkedAs type := by
  unfold FieldDeclaration.link? at hl
  obtain ⟨type, htype, hl⟩ := Option.bind_eq_some_iff.mp hl
  obtain ⟨default, hdefault, hl⟩ := Option.bind_eq_some_iff.mp hl
  obtain ⟨-, hl⟩ := Option.ite_none_right_eq_some.mp hl
  cases hl
  refine ⟨type, htype, ?_⟩
  have hsetting : ∀ name, settingOf? f.options name = none := by
    intro name
    rw [h.options]
    rfl
  have hzeroed : default = f.shape.zero type := by
    rw [FieldDeclaration.default?, hsetting] at hdefault
    cases hshape : f.shape <;> rw [hshape] at hdefault <;> cases hdefault
    · rw [hzero]
      rfl
    · rfl
    · rfl
  have hlabel : (f.label == some .optional) = false := by simpa using h.label
  have hpresence : f.hasPresence .proto3 type =
      (f.shape == .single && (type.isMessage || f.oneof.isSome)) := by
    unfold FieldDeclaration.hasPresence
    rw [hlabel, Bool.or_comm type.isMessage]
    cases type <;> rfl
  have hpacked : f.isPacked .proto3 type = (f.shape == .list && type.isPackable) := by
    rw [FieldDeclaration.isPacked, flagOf?, hsetting]
    exact Bool.and_true _
  have hkey : f.recordKey = lowerCamel f.name := by
    rw [FieldDeclaration.recordKey, textOptionOf?, hsetting]
    rfl
  rw [linkedAs, hzeroed, hpresence, hpacked, hkey, h.grouped]

/-- The field `linkedAs` of a plain one is plain. -/
theorem isPlain_linkedAs (h : f.IsPlain) (type : ValueType) : (f.linkedAs type).IsPlain :=
  ⟨h.pos, h.lt, rfl, rfl, rfl, rfl, h.oneof⟩

end FieldDeclaration.IsPlain

/-! ## Linked documents -/

section

variable {files : List SchemaFile} {file : SchemaFile} {schema : Schema}

/-- In plain files that link, the `firstNumber` of each visible type is zero. -/
theorem firstNumber_eq_zero (h : ofFiles? files = some schema) (hplain : ∀ f ∈ files, f.IsPlain)
    (hf : file ∈ files) (type : ValueType) :
    FieldDeclaration.firstNumber (Visible.ofFile files file) type = 0 := by
  refine FieldDeclaration.firstNumber_eq_zero fun name e he v hv => ?_
  obtain ⟨g, hg, hmem⟩ := List.mem_flatMap.mp (List.mem_of_find?_eq_some he)
  have hgmem := mem_of_mem_visibleFiles hf g hg
  have hlink := ((exists_link?_of_ofFiles? h hgmem).2 e hmem).2
  rw [(hplain g hgmem).dialect, Option.isSome_iff_exists] at hlink
  obtain ⟨linked, hlink⟩ := hlink
  obtain ⟨hvalid, -⟩ := Option.ite_none_right_eq_some.mp hlink
  simp only [Bool.and_eq_true] at hvalid
  have hfirst := hvalid.1.1.1.1.1
  rw [List.head?_map, Option.mem_def.mp hv] at hfirst
  simpa using hfirst

/-- A field of a message type that plain files link to is `linkedAs` of a declared field. -/
theorem exists_linkedAs (h : ofFiles? files = some schema) (hplain : ∀ f ∈ files, f.IsPlain)
    (hf : file ∈ files) {m : MessageDeclaration} (hm : m ∈ file.declarations.messages) {type : MessageType}
    (hl : m.link? file.dialect (Visible.ofFile files file) = some type) {g : MessageField}
    (hg : g ∈ type.fields) : ∃ f ∈ m.fields, ∃ valueType,
      (Visible.ofFile files file).type? m.name f.type = some valueType ∧ g = f.linkedAs valueType := by
  obtain ⟨f, hfield, hlink⟩ := MessageDeclaration.exists_of_link? hl hg
  rw [(hplain file hf).dialect] at hlink
  exact ⟨f, hfield, ((hplain file hf).fields m hm f hfield).eq_linkedAs hlink (firstNumber_eq_zero h hplain hf)⟩

/-- In files that include that of `Struct`, `Struct.FieldsEntry` is an entry type of texts and `Value`
messages. -/
theorem exists_isEntry_fieldsEntry (h : ofFiles? files = some schema) (hf : Bundled.struct ∈ files)
    {target : MessageType} (ht : schema.message? (Bundled.fullName "Struct.FieldsEntry") = some target) :
    ∃ keyField valueField, target.IsEntry .string keyField valueField ∧ valueField.type.isMessage = true := by
  obtain ⟨own, hown, hlink⟩ := (exists_link?_of_ofFiles? h hf).1 _ Bundled.fieldsEntry_mem
  rw [Bundled.name_fieldsEntry, ht, Option.some.injEq] at hown
  have hvalue : (Visible.ofFile files Bundled.struct).isMessage (Bundled.fullName "Value") = true :=
    List.any_eq_true.mpr ⟨_, List.mem_flatMap.mpr ⟨Bundled.struct, List.mem_cons_self,
      List.mem_cons_of_mem _ (List.mem_cons_of_mem _ List.mem_cons_self)⟩, beq_self_eq_true _⟩
  obtain ⟨keyField, valueField, hentry, htype⟩ := MessageDeclaration.isEntry_of_link? rfl rfl hlink
  rw [Bundled.typeNamed, Visible.type?_named hvalue, Option.some.injEq] at htype
  exact ⟨keyField, valueField, hown ▸ hentry, htype ▸ rfl⟩

/-- The message types that plain files link to are plain. -/
theorem isPlain_of_ofFiles? (h : ofFiles? files = some schema) (hplain : ∀ f ∈ files, f.IsPlain) {name : String}
    {type : MessageType} (htype : schema.message? name = some type) : type.IsPlain schema := by
  obtain ⟨file, hf, m, hm, hlink, -⟩ := exists_link?_of_mem h (Entries.mem_of_get?_eq_some htype)
  have hfields := fun g hg => exists_linkedAs h hplain hf hm hlink (g := g) hg
  refine ⟨fun g hg => ?_, fun g hg hshape target htarget => ?_⟩
  · obtain ⟨f, hfield, valueType, -, rfl⟩ := hfields g hg
    exact ((hplain file hf).fields m hm f hfield).isPlain_linkedAs valueType
  · obtain ⟨f, hfield, valueType, hvalueType, rfl⟩ := hfields g hg
    obtain ⟨rfl, hreference⟩ := (hplain file hf).maps m hm f hfield hshape
    have hentry : (Visible.ofFile files Bundled.struct).isMessage
        (Bundled.fullName "Struct.FieldsEntry") = true :=
      List.any_eq_true.mpr ⟨Bundled.fieldsEntry, List.mem_flatMap.mpr ⟨Bundled.struct, List.mem_cons_self,
        Bundled.fieldsEntry_mem⟩, beq_iff_eq.mpr Bundled.name_fieldsEntry⟩
    rw [hreference, Bundled.typeNamed, Visible.type?_named hentry, Option.some.injEq] at hvalueType
    subst hvalueType
    exact exists_isEntry_fieldsEntry h hf htarget

/-- The names of each enumeration that plain files link to are distinct. -/
theorem enumNames_nodup (h : ofFiles? files = some schema) (hplain : ∀ f ∈ files, f.IsPlain) {name : String}
    {enum : EnumType} (he : schema.enum? name = some enum) : (enum.values.map Prod.fst).Nodup := by
  obtain ⟨file, hf, e, hdeclared, hvalues⟩ := exists_declaration_of_enum? h he
  rw [hvalues, List.map_map]
  exact (hplain file hf).names e hdeclared

end

/-! ## Compiled documents -/

/-- The importable documents are plain. -/
theorem Bundled.isPlain_of_mem : ∀ f ∈ Bundled.importable, f.IsPlain := by
  have hall : ∀ f ∈ Bundled.importable, f.dialect = .proto3 ∧ ∀ m ∈ f.declarations.messages,
      ∀ g ∈ m.fields, 0 < g.number ∧ g.number < 2 ^ 29 ∧ g.options = [] ∧ g.label ≠ some .optional ∧
        g.grouped = false ∧ (g.shape ≠ .single → g.oneof = none) := by
    decide
  have hnames : ∀ f ∈ Bundled.importable, ∀ e ∈ f.declarations.enums,
      (e.values.map EnumValueDeclaration.name).Nodup := by
    decide
  have hsub : ∀ f ∈ importable, f ∈ all := by
    simp [importable, all]
  intro f hf
  obtain ⟨hdialect, hfields⟩ := hall f hf
  refine ⟨hdialect, fun m hm g hg => ?_, fun m hm g hg => eq_struct_of_map (hsub f hf) hm hg, hnames f hf⟩
  obtain ⟨hpos, hlt, hoptions, hlabel, hgrouped, honeof⟩ := hfields m hm g hg
  exact ⟨hpos, hlt, hoptions, hlabel, hgrouped, honeof⟩

end Schema

namespace SchemaDocument

variable {document : SchemaDocument}

/-- The file of a well-formed document with numbers below `2 ^ 29` is plain. -/
theorem IsWellFormed.isPlain_file (hw : document.IsWellFormed)
    (hn : ∀ f ∈ document.fields, f.number < 2 ^ 29) : document.file.IsPlain := by
  have hline : ∀ m ∈ document.file.declarations.messages, ∀ g ∈ m.fields,
      ∃ f ∈ document.fields, g = f.declaration := by
    intro m hm g hg
    obtain ⟨b, hb, rfl⟩ := List.mem_map.mp hm
    obtain ⟨f, hf, rfl⟩ := List.mem_map.mp hg
    exact ⟨f, List.mem_flatMap.mpr ⟨b, hb, hf⟩, rfl⟩
  refine ⟨rfl, fun m hm g hg => ?_, fun m hm g hg hshape => ?_, nofun⟩
  · obtain ⟨f, hf, rfl⟩ := hline m hm g hg
    refine ⟨hw.numbers_pos f hf, hn f hf, rfl, ?_, rfl, fun _ => rfl⟩
    cases hr : f.repeated <;> simp [SchemaField.declaration, hr]
  · obtain ⟨f, hf, rfl⟩ := hline m hm g hg
    cases hr : f.repeated <;> simp [SchemaField.declaration, hr] at hshape

/-- The schema of the text of a well-formed document is linked from plain files, each of which is importable or
that of the document. -/
theorem IsWellFormed.exists_files (hw : document.IsWellFormed) {schema : Schema}
    (h : Schema.ofText? document.text = some schema) : ∃ files, ofFiles? files = some schema ∧
      (∀ f ∈ files, f.IsPlain) ∧ ∀ f ∈ files, f ∈ Bundled.importable ∨ f = document.file := by
  obtain ⟨loaded, hl, -, hload⟩ := exists_load_text hw.isPlain hw.isReadable hw.toIsImporting
  obtain ⟨files, hfiles, hlinked⟩ := Option.bind_eq_some_iff.mp h
  obtain ⟨hn, rfl⟩ := (hload files).mp hfiles
  have hcases : ∀ f ∈ loaded ++ [document.file], f ∈ Bundled.importable ∨ f = document.file := by
    intro f hf
    rw [List.mem_append, List.mem_singleton] at hf
    exact hf.imp_left (hl.importable f)
  refine ⟨_, hlinked, fun f hf => ?_, hcases⟩
  rcases hcases f hf with hf | rfl
  · exact Bundled.isPlain_of_mem f hf
  · exact hw.isPlain_file hn

/-- The schema of the text of a well-formed document is plain. -/
theorem IsWellFormed.isPlain_schema (hw : document.IsWellFormed) {schema : Schema}
    (h : Schema.ofText? document.text = some schema) : schema.IsPlain := by
  obtain ⟨files, hfiles, hplain, -⟩ := hw.exists_files h
  exact ⟨isTyped_of_load (isLinked_of_ofText? h) (.inl ⟨_, h⟩), fun _ _ ht => isPlain_of_ofFiles? hfiles hplain ht,
    fun _ _ he => enumNames_nodup hfiles hplain he⟩

end SchemaDocument

/-- The schema that the text of a compilation loads is plain. -/
theorem CompiledSchema.isPlain_of_loadText {definitions : List RecordDefinition} {compiled : CompiledSchema}
    (h : compile definitions = .ok compiled) {schema : Schema}
    (hload : SchemaStore.loadText {} compiled.document.text = .ok ⟨some schema⟩) : schema.IsPlain := by
  obtain ⟨loaded, hloaded, hstore⟩ := SchemaStore.loadText_eq_ok_iff.mp hload
  cases hstore
  exact (Compilation.isSound_of_compile h).toIsWellFormed.isPlain_schema hloaded

end Tagwire
