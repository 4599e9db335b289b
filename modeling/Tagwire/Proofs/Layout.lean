import Tagwire.Proofs.Acceptance
import Tagwire.Proofs.Entries
import Tagwire.Proofs.Schema.Document

/-!
# What a compilation lays out

A message of a compilation has the field of the type first and then the fields of a lineage, numbered from
one on, with the record keys of the lineage for their names.  The document and the registry list the same
messages with the same fields, and the document is one that links, but for numbers that are not permitted
and for record keys that differ in their letter case only.
-/

set_option autoImplicit false

namespace Tagwire

open Schema

/-! ## Types of a compilation -/

/-- The line of the document for a registered field, under its `protoName`. -/
def RegisteredField.line (field : RegisteredField) : SchemaField :=
  ⟨field.protoName, field.typeName, field.number, field.repeated⟩

/-- A type as `compile` registers it: without a constructor, with `typeTag` first, with numbers from 1 on in
turn, and with distinct record keys that `protoName` is the `snakeCase` form of. -/
structure RegisteredType.IsLaidOut (type : RegisteredType) : Prop where
  constructed : type.constructed = none
  tag : type.fields.head? = some .typeTag
  numbers : type.fields.map RegisteredField.number = List.range' 1 type.fields.length
  names_nodup : (type.fields.map RegisteredField.name).Nodup
  keys : ∀ f ∈ type.fields, isRecordKey f.name = true
  protoNames : ∀ f ∈ type.fields, f.protoName = snakeCase f.name

/-- The key of the type is a record key. -/
theorem isRecordKey_typeField : isRecordKey typeField = true := by decide

namespace Catalog

variable {catalog : Catalog}

/-- `layFields` numbers declarations from `number` on, without a gap. -/
theorem map_number_layFields (number : Nat) (ds : List Declaration) :
    (catalog.layFields number ds).map RegisteredField.number = List.range' number ds.length := by
  induction ds generalizing number with
  | nil => rfl
  | cons d rest ih =>
    rw [layFields, List.map_cons, ih, List.length_cons, List.range'_succ]
    rfl

/-- `layFields` gives one field for each declaration. -/
theorem length_layFields (number : Nat) (ds : List Declaration) :
    (catalog.layFields number ds).length = ds.length := by
  have h := congrArg List.length (@map_number_layFields catalog number ds)
  rwa [List.length_map, List.length_range'] at h

/-- `layFields` keeps the record keys of declarations, as `lowerCamel` undoes `snakeCase`. -/
theorem map_name_layFields {ds : List Declaration} (h : ∀ d ∈ ds, isRecordKey d.name = true)
    (number : Nat) :
    (catalog.layFields number ds).map RegisteredField.name = ds.map Declaration.name := by
  induction ds generalizing number with
  | nil => rfl
  | cons d rest ih =>
    rw [layFields, List.map_cons, List.map_cons, ih fun d' hd' => h d' (by simp [hd'])]
    exact congrArg (· :: _) (lowerCamel_snakeCase (h d (by simp)))

/-- Every field that `layFields` gives is `layField` of a declaration. -/
theorem exists_of_mem_layFields {number : Nat} {ds : List Declaration} {f : RegisteredField}
    (hf : f ∈ catalog.layFields number ds) : ∃ d ∈ ds, ∃ n, f = catalog.layField n d := by
  induction ds generalizing number with
  | nil => cases hf
  | cons d rest ih =>
    rcases List.mem_cons.mp hf with rfl | hf
    · exact ⟨d, by simp, number, rfl⟩
    · obtain ⟨d', hd', n, hn⟩ := ih hf
      exact ⟨d', by simp [hd'], n, hn⟩

/-- `messageName` of a listed identity is the name of its entry. -/
theorem exists_messageName_eq {id : RecordId} (h : id ∈ catalog.ids) :
    ∃ e ∈ catalog, catalog.messageName id = e.name.text := by
  obtain ⟨e, he⟩ := exists_get?_of_mem_ids h
  refine ⟨e, (mem_of_get?_eq_some he).1, ?_⟩
  rw [messageName, he]
  rfl

/-- A declaration that some definition of the catalog makes: with a record key, a listed target if it has one,
and its owner among the definitions. -/
structure IsDeclared (catalog : Catalog) (d : Declaration) : Prop where
  key : isRecordKey d.name = true
  target : ∀ target, d.field.kind = .record target → target ∈ catalog.ids
  owner : ∃ definition ∈ catalog.definitions, (d.name, d.field) ∈ definition.fields

/-- The declarations of a lineage in a checked catalog are made by its definitions. -/
theorem IsChecked.isDeclared (hc : catalog.IsChecked) {definition : RecordDefinition}
    (hd : definition ∈ catalog.definitions) :
    ∀ d ∈ Declaration.ofLineage (catalog.lineage definition), catalog.IsDeclared d := by
  intro d hmem
  obtain ⟨owner, howner, hfield⟩ := List.mem_flatMap.mp hmem
  obtain ⟨f, hf, rfl⟩ := List.mem_map.mp hfield
  have hlisted := (hc.lineage hd).mem_definitions hd owner howner
  obtain ⟨-, hreferences, hkeys⟩ := hc.passes owner hlisted
  refine ⟨hkeys f hf, fun target htarget => ?_, ⟨owner, hlisted, hf⟩⟩
  exact hreferences target ((mem_references_iff owner target).mpr (.inr ⟨f, hf, htarget⟩))

end Catalog

namespace Compilation

variable {catalog : Catalog}

/-- The message that `messageOf` lays out for a listed definition. -/
structure IsMessage (catalog : Catalog) (e : CatalogEntry) (message : Message) : Prop where
  name : message.name = e.name
  parent : message.parent = (e.definition.parent.map catalog.messageName).getD baseMessage
  declarations : message.declarations = Declaration.ofLineage (catalog.lineage e.definition)
  fields : message.fields = catalog.layout message.declarations
  keys_nodup : (typeField :: declaredKeys (catalog.lineage e.definition)).Nodup

/-- `messageOf` gives the message of its entry. -/
theorem isMessage_of_messageOf {e : CatalogEntry} {message : Message}
    (h : messageOf catalog e = .ok message) : IsMessage catalog e message := by
  unfold messageOf at h
  rw [bind_eq_ok_iff] at h
  obtain ⟨declarations, hdeclarations, hresult⟩ := h
  obtain ⟨rfl, hn⟩ := (Catalog.declarations_eq_ok_iff catalog _ _).mp hdeclarations
  cases hresult
  exact ⟨rfl, rfl, rfl, rfl, hn⟩

namespace IsMessage

variable {e : CatalogEntry} {message : Message}

/-- The record keys of a message are `typeField` and those of the lineage. -/
theorem map_name_fields (h : IsMessage catalog e message) (hc : catalog.IsChecked) (he : e ∈ catalog) :
    message.fields.map RegisteredField.name =
      typeField :: declaredKeys (catalog.lineage e.definition) := by
  have hdeclared := hc.isDeclared (List.mem_map_of_mem he)
  rw [h.fields, Catalog.layout, List.map_cons, h.declarations,
    Catalog.map_name_layFields fun d hd => (hdeclared d hd).key, Declaration.map_name_ofLineage]
  rfl

/-- A field of a message is `typeTag`, or `layField` of a declaration. -/
theorem field_cases (h : IsMessage catalog e message) (hc : catalog.IsChecked) (he : e ∈ catalog)
    {f : RegisteredField} (hf : f ∈ message.fields) :
    f = .typeTag ∨ ∃ d ∈ message.declarations, catalog.IsDeclared d ∧ ∃ n, f = catalog.layField n d := by
  rw [h.fields, Catalog.layout, List.mem_cons] at hf
  rcases hf with rfl | hf
  · exact .inl rfl
  · obtain ⟨d, hd, n, hn⟩ := Catalog.exists_of_mem_layFields hf
    have hdeclared := hc.isDeclared (List.mem_map_of_mem he) d (h.declarations ▸ hd)
    exact .inr ⟨d, hd, hdeclared, n, hn⟩

/-- The registered type of a message is laid out. -/
theorem isLaidOut (h : IsMessage catalog e message) (hc : catalog.IsChecked) (he : e ∈ catalog) :
    message.registeredType.IsLaidOut where
  constructed := rfl
  tag := by
    show message.fields.head? = _
    rw [h.fields]
    rfl
  numbers := by
    show message.fields.map RegisteredField.number = List.range' 1 message.fields.length
    rw [h.fields, Catalog.layout, List.map_cons, Catalog.map_number_layFields, List.length_cons,
      Catalog.length_layFields, List.range'_succ]
    rfl
  names_nodup := by
    show (message.fields.map RegisteredField.name).Nodup
    rw [h.map_name_fields hc he]
    exact h.keys_nodup
  keys := by
    intro f hf
    rcases h.field_cases hc he hf with rfl | ⟨d, -, hd, n, rfl⟩
    · exact isRecordKey_typeField
    · show isRecordKey (lowerCamel (snakeCase d.name)) = true
      rw [lowerCamel_snakeCase hd.key]
      exact hd.key
  protoNames := by
    intro f hf
    rcases h.field_cases hc he hf with rfl | ⟨d, -, hd, n, rfl⟩
    · decide
    · exact congrArg snakeCase (lowerCamel_snakeCase hd.key).symm

end IsMessage

/-! ## Imports -/

/-- `addImport` adds a path to the others, once. -/
theorem addImport_spec {imports : List String} (hn : imports.Nodup) (p : String) :
    (addImport imports p).Nodup ∧ ∀ path, path ∈ addImport imports p ↔ path ∈ imports ∨ path = p := by
  unfold addImport
  by_cases hp : p ∈ imports
  · rw [if_pos (by simpa using hp)]
    refine ⟨hn, fun path => ⟨.inl, ?_⟩⟩
    rintro (h | rfl)
    · exact h
    · exact hp
  · rw [if_neg (by simpa using hp)]
    refine ⟨List.Nodup.append hn (by simp) (by rwa [List.disjoint_singleton]), ?_⟩
    simp

/-- A fold of `addImport` adds paths to the others, each once. -/
theorem foldl_addImport_spec (paths : List String) {imports : List String} (hn : imports.Nodup) :
    (paths.foldl addImport imports).Nodup ∧
      ∀ path, path ∈ paths.foldl addImport imports ↔ path ∈ imports ∨ path ∈ paths := by
  induction paths generalizing imports with
  | nil => simpa using hn
  | cons p paths ih =>
    obtain ⟨hadded, hmemAdded⟩ := addImport_spec hn p
    obtain ⟨hnodup, hmem⟩ := ih hadded
    refine ⟨hnodup, fun path => ?_⟩
    rw [List.foldl_cons, hmem, hmemAdded, List.mem_cons, or_assoc]

/-- `importsOf` gives the paths that messages need, each once. -/
theorem importsOf_spec (messages : List Message) : (importsOf messages).Nodup ∧
    ∀ path, path ∈ importsOf messages ↔ ∃ message ∈ messages, path ∈ message.importPaths := by
  obtain ⟨hnodup, hmem⟩ := foldl_addImport_spec (messages.flatMap Message.importPaths) List.nodup_nil
  refine ⟨hnodup, fun path => ?_⟩
  unfold importsOf
  rw [hmem, List.mem_flatMap]
  simp

end Compilation

/-! ## The document and the registry -/

namespace Registry

/-- `Registry.ofList` has the types under their names. -/
theorem types_ofList (types : List RegisteredType) :
    (ofList types).types = Entries.ofList (types.map fun t => (t.name, t)) := by
  have hfold : ∀ registry : Registry, (types.foldl register registry).types =
      Entries.insertAll registry.types (types.map fun t => (t.name, t)) := by
    induction types with
    | nil => exact fun _ => rfl
    | cons t types ih => exact fun registry => ih (registry.register t)
  exact hfold {}

/-- `Registry.ofList` has under a name the last type of the list that goes by it. -/
theorem get?_ofList (types : List RegisteredType) (name : String) :
    (ofList types).get? name = types.reverse.find? fun t => t.name == name := by
  have hfold : ∀ registry : Registry, (types.foldl register registry).get? name =
      (types.reverse.find? fun t => t.name == name).or (registry.get? name) := by
    induction types with
    | nil => exact fun _ => rfl
    | cons t rest ih =>
      intro registry
      have hregister : (registry.register t).get? name =
          if t.name = name then some t else registry.get? name := by
        unfold register get?
        rw [Entries.insert_eq, Entries.get?_eq, Assoc.get?_insert, Entries.get?_eq]
      rw [List.foldl_cons, ih, hregister, List.reverse_cons, List.find?_append, Option.or_assoc]
      by_cases hname : t.name = name
      · rw [if_pos hname, List.find?_cons_of_pos (by simp [hname]), Option.some_or]
      · rw [if_neg hname, List.find?_cons_of_neg (by simp [hname]), List.find?_nil, Option.none_or]
  rw [ofList, hfold]
  exact Option.or_none

/-- A name that the registry has a type for is one of its names. -/
theorem mem_names_of_get? {registry : Registry} {name : String} {type : RegisteredType}
    (h : registry.get? name = some type) : name ∈ registry.names := by
  exact List.mem_map_of_mem (f := Prod.fst) (Entries.mem_of_get?_eq_some h)

end Registry

/-- The text is the type of `typeTag`, or of a kind that one of the definitions gives to a field. -/
inductive IsKindText (definitions : List RecordDefinition) (names : List String) : String → Prop
  | tag : IsKindText definitions names RegisteredField.typeTag.typeName
  | scalar {d : RecordDefinition} {f : String × FieldDefinition} {kind : Scalar}
    (hd : d ∈ definitions) (hf : f ∈ d.fields) (hk : f.2.kind = .scalar kind) :
    IsKindText definitions names kind.keyword
  | wellKnown {d : RecordDefinition} {f : String × FieldDefinition} {kind : WellKnown}
    (hd : d ∈ definitions) (hf : f ∈ d.fields) (hk : f.2.kind = .wellKnown kind) :
    IsKindText definitions names kind.typeName
  | record {d : RecordDefinition} {f : String × FieldDefinition} {target : String} {name : String}
    (hd : d ∈ definitions) (hf : f ∈ d.fields) (hk : f.2.kind = .record target) (hn : name ∈ names) :
    IsKindText definitions names name

/-- What the document and the registry of a compilation say about its definitions and about each other. -/
structure CompiledSchema.IsSound (definitions : List RecordDefinition) (compiled : CompiledSchema) :
    Prop extends compiled.document.IsWellFormed where
  derived : (compiled.document.messages.map fun b => b.name.text) =
    definitions.map fun d => MessageName.stem d.id ++ messageSuffix
  registered : ∀ b ∈ compiled.document.messages, ∃ type, compiled.registry.get? b.name.text = some type ∧
    type.name = b.name.text ∧ type.IsLaidOut ∧ b.fields = type.fields.map RegisteredField.line
  listed : ∀ name, name ∈ compiled.registry.names ↔
    name ∈ compiled.document.messages.map fun b => b.name.text
  kinds : ∀ f ∈ compiled.document.fields,
    IsKindText definitions (compiled.document.messages.map fun b => b.name.text) f.typeName
  keys : ∀ d ∈ definitions, ∃ chain, Lineage definitions d chain ∧
    ∃ type, compiled.registry.get? (MessageName.stem d.id ++ messageSuffix) = some type ∧
      type.fields.map RegisteredField.name = typeField :: declaredKeys chain

namespace RegisteredType.IsLaidOut

variable {type : RegisteredType}

/-- `lowerCamel` gives the record keys of a laid out type back from its lines. -/
theorem map_lowerCamel_lines (h : type.IsLaidOut) :
    (type.fields.map RegisteredField.line).map (fun f => lowerCamel f.name) =
      type.fields.map RegisteredField.name := by
  rw [List.map_map]
  apply List.map_congr_left
  intro f hf
  show lowerCamel f.protoName = f.name
  rw [h.protoNames f hf, lowerCamel_snakeCase (h.keys f hf)]

/-- The lines of a laid out type have distinct numbers. -/
theorem numbers_nodup (h : type.IsLaidOut) :
    ((type.fields.map RegisteredField.line).map SchemaField.number).Nodup := by
  have hnumbers : (type.fields.map RegisteredField.line).map SchemaField.number =
      type.fields.map RegisteredField.number := by
    rw [List.map_map]
    rfl
  rw [hnumbers, h.numbers]
  exact List.nodup_range'

/-- The numbers of a laid out type start at 1. -/
theorem number_pos (h : type.IsLaidOut) {f : RegisteredField} (hf : f ∈ type.fields) :
    0 < f.number := by
  have hmem : f.number ∈ type.fields.map RegisteredField.number := List.mem_map_of_mem hf
  rw [h.numbers, List.mem_range'] at hmem
  omega

end RegisteredType.IsLaidOut

/-- Two message names with one text are the same. -/
theorem MessageName.text_injective {a b : MessageName} (h : a.text = b.text) : a = b := by
  cases a
  cases b
  cases h
  rfl

namespace Compilation

section Messages

variable {catalog : Catalog} {messages : List Message}

/-- The document and the registry that `compile` makes of messages. -/
def schemaOf (messages : List Message) : CompiledSchema :=
  { document := { imports := importsOf messages, messages := messages.map Message.block }
    registry := .ofList (messages.map Message.registeredType) }

/-- The messages of the document have the names of the catalog, in order. -/
theorem map_text_schemaOf (hm : List.Forall₂ (IsMessage catalog) catalog messages) :
    ((schemaOf messages).document.messages.map fun b => b.name.text) =
      (catalog.map CatalogEntry.name).map MessageName.text := by
  have hnames : messages.map Message.name = catalog.map CatalogEntry.name :=
    map_eq_map_of_forall₂ (hm.imp fun _ _ h => h.name)
  rw [← hnames, schemaOf, List.map_map, List.map_map]
  rfl

/-- The messages of the document have the names that are derived from the definitions, in order. -/
theorem derived_schemaOf (hl : catalog.IsListing) (hm : List.Forall₂ (IsMessage catalog) catalog messages) :
    ((schemaOf messages).document.messages.map fun b => b.name.text) =
      catalog.definitions.map fun d => MessageName.stem d.id ++ messageSuffix := by
  rw [map_text_schemaOf hm, Catalog.definitions, List.map_map, List.map_map]
  exact List.map_congr_left fun e he => hl.derived e he

/-- The messages of the document have distinct names. -/
theorem names_nodup_schemaOf (hl : catalog.IsListing)
    (hm : List.Forall₂ (IsMessage catalog) catalog messages) :
    ((schemaOf messages).document.messages.map fun b => b.name.text).Nodup := by
  rw [map_text_schemaOf hm]
  exact hl.names_nodup.map fun a b => MessageName.text_injective

/-- The registry has types under the names of the messages of the document. -/
theorem map_name_schemaOf (messages : List Message) :
    ((messages.map Message.registeredType).map fun t => (t.name, t)).map Prod.fst =
      (schemaOf messages).document.messages.map fun b => b.name.text := by
  simp only [schemaOf, List.map_map]
  rfl

/-- The registry has `registeredType` of each message under its name. -/
theorem get?_schemaOf (hl : catalog.IsListing) (hm : List.Forall₂ (IsMessage catalog) catalog messages)
    {message : Message} (hmem : message ∈ messages) :
    (schemaOf messages).registry.get? message.name.text = some message.registeredType := by
  have hnodup := names_nodup_schemaOf hl hm
  rw [← map_name_schemaOf] at hnodup
  rw [Registry.get?, schemaOf, Registry.types_ofList, Entries.get?_ofList hnodup]
  exact Assoc.get?_eq_some_of_mem hnodup
    (List.mem_map_of_mem (f := fun t : RegisteredType => (t.name, t)) (List.mem_map_of_mem hmem))

/-- The registry and the document have the same names. -/
theorem mem_names_schemaOf (hl : catalog.IsListing)
    (hm : List.Forall₂ (IsMessage catalog) catalog messages) (name : String) :
    name ∈ (schemaOf messages).registry.names ↔
      name ∈ (schemaOf messages).document.messages.map fun b => b.name.text := by
  have hnodup := names_nodup_schemaOf hl hm
  rw [← map_name_schemaOf] at hnodup
  rw [Registry.names, ← map_name_schemaOf, schemaOf, Registry.types_ofList, Entries.mem_keys_ofList hnodup]

/-- The type of a field of a message is the text of a kind, and where it names a message the document has it. -/
theorem type_of_field (hc : catalog.IsChecked) (hm : List.Forall₂ (IsMessage catalog) catalog messages)
    {e : CatalogEntry} (he : e ∈ catalog) {message : Message} (h : IsMessage catalog e message)
    (hmem : message ∈ messages) {f : RegisteredField} (hf : f ∈ message.fields) :
    (schemaOf messages).document.IsType f.typeName ∧ IsKindText catalog.definitions
      ((schemaOf messages).document.messages.map fun b => b.name.text) f.typeName := by
  rcases h.field_cases hc he hf with rfl | ⟨d, hd, hdeclared, n, rfl⟩
  · exact ⟨.scalar .string, .tag⟩
  · obtain ⟨definition, hdefinition, hfield⟩ := hdeclared.owner
    show (schemaOf messages).document.IsType (catalog.typeName d.field.kind) ∧
      IsKindText _ _ (catalog.typeName d.field.kind)
    cases hk : d.field.kind with
    | scalar kind => exact ⟨.scalar kind, .scalar hdefinition hfield hk⟩
    | wellKnown kind =>
      refine ⟨.wellKnown kind (((importsOf_spec messages).2 _).mpr ⟨message, hmem, ?_⟩),
        .wellKnown hdefinition hfield hk⟩
      exact List.mem_filterMap.mpr ⟨d, hd, by rw [hk]; rfl⟩
    | record target =>
      obtain ⟨e', he', hname⟩ := Catalog.exists_messageName_eq (hdeclared.target target hk)
      obtain ⟨message', hmem', h'⟩ := exists_of_forall₂ hm he'
      have hblock : message'.block ∈ (schemaOf messages).document.messages := List.mem_map_of_mem hmem'
      have htext : catalog.typeName (.record target) = message'.block.name.text := by
        show catalog.messageName target = message'.name.text
        rw [hname, h'.name]
      rw [htext]
      exact ⟨.message hblock, .record hdefinition hfield hk (List.mem_map_of_mem hblock)⟩

/-- The document of messages is well formed: it lacks nothing for linking but, perhaps, permitted numbers and
keys that are apart. -/
theorem isWellFormed_schemaOf (hc : catalog.IsChecked)
    (hm : List.Forall₂ (IsMessage catalog) catalog messages) :
    (schemaOf messages).document.IsWellFormed := by
  have hentry : ∀ b ∈ (schemaOf messages).document.messages, ∃ message ∈ messages, b = message.block ∧
      ∃ e ∈ catalog, IsMessage catalog e message := by
    intro b hb
    obtain ⟨message, hmem, rfl⟩ := List.mem_map.mp hb
    obtain ⟨e, he, h⟩ := exists_of_forall₂ hm.flip hmem
    exact ⟨message, hmem, rfl, e, he, h⟩
  have hfield : ∀ f ∈ (schemaOf messages).document.fields, ∃ message ∈ messages, ∃ e ∈ catalog,
      IsMessage catalog e message ∧ ∃ g ∈ message.fields, f = g.line := by
    intro f hf
    obtain ⟨b, hb, hfb⟩ := List.mem_flatMap.mp hf
    obtain ⟨message, hmem, rfl, e, he, h⟩ := hentry b hb
    obtain ⟨g, hg, rfl⟩ := List.mem_map.mp hfb
    exact ⟨message, hmem, e, he, h, g, hg, rfl⟩
  constructor
  case toIsImporting =>
    refine ⟨fun path hpath => ?_, (importsOf_spec messages).1⟩
    obtain ⟨message, -, hneeds⟩ := ((importsOf_spec messages).2 path).mp hpath
    obtain ⟨d, -, hd⟩ := List.mem_filterMap.mp hneeds
    cases hk : d.field.kind with
    | scalar kind => rw [hk] at hd; cases hd
    | record target => rw [hk] at hd; cases hd
    | wellKnown kind =>
      rw [hk] at hd
      cases hd
      obtain ⟨f, hf, hfpath, -⟩ := Bundled.exists_declaration kind
      exact hfpath ▸ List.mem_map_of_mem hf
  case names_nodup => exact names_nodup_schemaOf hc.toIsListing hm
  case names_suffix =>
    intro b hb
    obtain ⟨message, -, rfl, e, he, h⟩ := hentry b hb
    refine ⟨MessageName.stem e.definition.id, ?_⟩
    rw [← hc.derived e he, ← h.name]
    rfl
  case identifiers =>
    intro f hf
    obtain ⟨message, -, e, he, h, g, hg, rfl⟩ := hfield f hf
    have hlaid := h.isLaidOut hc he
    show isIdentifier g.protoName = true
    rw [hlaid.protoNames g hg]
    exact isIdentifier_snakeCase (hlaid.keys g hg)
  case numbers_pos =>
    intro f hf
    obtain ⟨message, -, e, he, h, g, hg, rfl⟩ := hfield f hf
    exact (h.isLaidOut hc he).number_pos hg
  case numbers_nodup =>
    intro b hb
    obtain ⟨message, -, rfl, e, he, h⟩ := hentry b hb
    exact (h.isLaidOut hc he).numbers_nodup
  case keys_nodup =>
    intro b hb
    obtain ⟨message, -, rfl, e, he, h⟩ := hentry b hb
    have hlaid := h.isLaidOut hc he
    exact hlaid.map_lowerCamel_lines.symm ▸ hlaid.names_nodup
  case types =>
    intro f hf
    obtain ⟨message, hmem, e, he, h, g, hg, rfl⟩ := hfield f hf
    exact (type_of_field hc hm he h hmem hg).1

end Messages

/-- What `compile` gives is sound. -/
theorem isSound_of_compile {definitions : List RecordDefinition} {compiled : CompiledSchema}
    (h : compile definitions = .ok compiled) : compiled.IsSound definitions := by
  obtain ⟨catalog, hcatalog, hc, messages, hmessages, rfl⟩ := (compile_eq_ok_iff _ _).mp h
  have hm : List.Forall₂ (IsMessage catalog) catalog messages :=
    hmessages.imp fun _ _ => isMessage_of_messageOf
  have hl := hc.toIsListing
  obtain ⟨-, rfl⟩ := Catalog.isListing_of_ofDefinitions hcatalog
  refine
    { toIsWellFormed := isWellFormed_schemaOf hc hm
      derived := derived_schemaOf hl hm
      listed := mem_names_schemaOf hl hm
      registered := ?_
      kinds := ?_
      keys := ?_ }
  · intro b hb
    obtain ⟨message, hmem, rfl⟩ := List.mem_map.mp hb
    obtain ⟨e, he, hmessage⟩ := exists_of_forall₂ hm.flip hmem
    exact ⟨message.registeredType, get?_schemaOf hl hm hmem, rfl, hmessage.isLaidOut hc he, rfl⟩
  · intro f hf
    obtain ⟨b, hb, hfb⟩ := List.mem_flatMap.mp hf
    obtain ⟨message, hmem, rfl⟩ := List.mem_map.mp hb
    obtain ⟨g, hg, rfl⟩ := List.mem_map.mp hfb
    obtain ⟨e, he, hmessage⟩ := exists_of_forall₂ hm.flip hmem
    exact (type_of_field hc hm he hmessage hmem hg).2
  · intro d hd
    obtain ⟨e, he, rfl⟩ := List.mem_map.mp hd
    obtain ⟨message, hmem, hmessage⟩ := exists_of_forall₂ hm he
    refine ⟨_, hc.lineage hd, message.registeredType, ?_, hmessage.map_name_fields hc he⟩
    rw [← hl.derived e he, ← hmessage.name]
    exact get?_schemaOf hl hm hmem

end Compilation

end Tagwire
