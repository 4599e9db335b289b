import Tagwire.Codec.Store
import Tagwire.Proofs.Layout
import Tagwire.Proofs.Schema.Lookup

/-!
# Loading the document of a compilation

The text of compiled definitions is read and linked if its field numbers are permitted and no two record
keys of a message agree when letter case is ignored.  The types of the schema are then those of the
registry: the same names, and under each the same fields.
-/

set_option autoImplicit false

namespace Tagwire

open Schema

/-! ## Well-formed documents are read -/

/-- The paths of the importable documents have no quotes, backslashes or line breaks. -/
theorem Schema.Bundled.isPlainChar_path :
    ∀ f ∈ Bundled.importable, f.path.toList.all isPlainChar = true := by
  decide

/-- A name that ends in `messageSuffix` is none of the `leadingWords`. -/
theorem append_messageSuffix_not_mem_leadingWords (stem : String) :
    stem ++ messageSuffix ∉ leadingWords := by
  intro hmem
  simp only [leadingWords, List.mem_cons, List.not_mem_nil, or_false] at hmem
  rcases hmem with h | h | h | h | h | h <;>
    exact append_messageSuffix_ne (by decide) h

namespace SchemaDocument

variable {document : SchemaDocument}

/-- The words of the type of a line are identifiers, and the first is none of the `leadingWords`. -/
theorem IsWellFormed.pathWords_spec (hw : document.IsWellFormed) {typeName : String}
    (ht : document.IsType typeName) : (pathWords typeName).all isIdentifier = true ∧
      ∀ w ∈ (pathWords typeName).head?, w ∉ leadingWords := by
  cases ht with
  | scalar kind =>
    rw [pathWords_of_isIdentifier (isIdentifier_keyword kind)]
    cases kind <;> decide
  | wellKnown kind hpath => cases kind <;> decide +kernel
  | @message b hb =>
    obtain ⟨stem, hstem⟩ := hw.names_suffix b hb
    rw [pathWords_of_isIdentifier b.name.isIdentifier_text]
    refine ⟨by simp [b.name.isIdentifier_text], fun w hmem => ?_⟩
    rw [List.head?_cons, Option.mem_some_iff] at hmem
    rw [← hmem, hstem]
    exact append_messageSuffix_not_mem_leadingWords stem

/-- Each line of a well-formed document is readable. -/
theorem IsWellFormed.isReadable (hw : document.IsWellFormed) :
    ∀ f ∈ document.fields, f.IsReadable := by
  intro f hf
  obtain ⟨hwords, hlead⟩ := hw.pathWords_spec (hw.types f hf)
  exact ⟨⟨hw.identifiers f hf, hwords, hw.numbers_pos f hf⟩, hlead⟩

/-- A well-formed document is plain. -/
theorem IsWellFormed.isPlain (hw : document.IsWellFormed) : document.IsPlain := by
  refine ⟨fun path hpath => ?_, fun f hf => (hw.isReadable f hf).toIsPlain⟩
  obtain ⟨f, hf, rfl⟩ := List.mem_map.mp (hw.importable path hpath)
  exact Bundled.isPlainChar_path f hf

end SchemaDocument

/-! ## Registered and linked types -/

namespace RegisteredField

/-- The message field that the line of a registered field links to. -/
def linked (field : RegisteredField) : MessageField := field.line.linked

/-- The message field that a registered field links to, from the record key of its `protoName` and the type of
its type name. -/
theorem linked_eq {field : RegisteredField} {jsonName : String} {type : ValueType}
    (hname : lowerCamel field.protoName = jsonName) (htype : linkedType field.typeName = type) :
    field.linked =
      { name := field.protoName, jsonName, number := field.number, type
        shape := if field.repeated then .list else .single
        presence := !field.repeated && type.isMessage
        packed := field.repeated && type.isPackable
        default := if field.repeated then .list [] else type.zero 0 } := by
  subst hname htype
  rfl

/-- The field `typeTag` links to the string field `type` with number 1. -/
theorem linked_typeTag : typeTag.linked =
    { name := typeField, jsonName := typeField, number := 1, type := .scalar .string
      default := .string "" } :=
  linked_eq (by decide) (linkedType_keyword .string)

end RegisteredField

namespace RegisteredType

/-- The message type that a registered type links to, field by field. -/
def linked (type : RegisteredType) : MessageType :=
  ⟨type.name, type.fields.map RegisteredField.linked⟩

namespace IsLaidOut

variable {type : RegisteredType}

/-- The numbers of a type that is laid out increase. -/
theorem numbers_pairwise (h : type.IsLaidOut) :
    type.fields.Pairwise fun a b => a.number < b.number := by
  apply List.pairwise_map.mp
  rw [h.numbers]
  exact List.pairwise_lt_range'

/-- A linked field is registered again as the field that it was linked from. -/
theorem registeredField_linked (h : type.IsLaidOut) {f : RegisteredField} (hf : f ∈ type.fields) :
    MessageType.registeredField f.linked = f := by
  have hname : lowerCamel f.protoName = f.name := by
    rw [h.protoNames f hf, lowerCamel_snakeCase (h.keys f hf)]
  have hrepeated : ((if f.repeated then FieldShape.list else .single) == .list) = f.repeated := by
    cases f.repeated <;> rfl
  show RegisteredField.mk (lowerCamel f.protoName) f.protoName f.number (linkedType f.typeName).name
    ((if f.repeated then FieldShape.list else .single) == .list) = f
  rw [hname, name_linkedType, hrepeated]

/-- The fields of a linked type are registered again as those that they were linked from. -/
theorem registeredFields_linked (h : type.IsLaidOut) : type.linked.registeredFields = type.fields := by
  have hfields : type.linked.fields.map MessageType.registeredField = type.fields := by
    rw [linked, List.map_map]
    calc type.fields.map (MessageType.registeredField ∘ RegisteredField.linked)
        = type.fields.map id := List.map_congr_left fun f hf => h.registeredField_linked hf
      _ = type.fields := List.map_id _
  rw [MessageType.registeredFields, hfields]
  refine List.mergeSort_of_pairwise (h.numbers_pairwise.imp fun hlt => ?_)
  exact decide_eq_true hlt.le

/-- The field number 1 of a linked type is the text `type`. -/
theorem hasTypeTag_linked (h : type.IsLaidOut) : type.linked.hasTypeTag = true := by
  obtain ⟨rest, hrest⟩ := List.head?_eq_some_iff.mp h.tag
  have hfield : type.linked.field? RegisteredField.typeTag.number =
      some RegisteredField.typeTag.linked := by
    rw [MessageType.field?, linked, hrest, List.map_cons, List.find?_cons_of_pos]
    rfl
  rw [MessageType.hasTypeTag, hfield, RegisteredField.linked_typeTag]
  rfl

end IsLaidOut

end RegisteredType

/-- The registered type is laid out, its name is a message name with `messageSuffix`, and the schema has its
linked type under this name. -/
structure RegisteredType.IsLoaded (type : RegisteredType) (schema : Schema) : Prop extends
    type.IsLaidOut where
  wellFormed : isMessageName type.name = true
  suffix : ∃ stem, type.name = stem ++ messageSuffix
  linked : schema.message? type.name = some type.linked
  numbers_lt : ∀ f ∈ type.fields, f.number < 2 ^ 29

namespace CompiledSchema

/-- Each type of the registry is loaded in the schema, and the message names of the schema are those of the
registry, each once. -/
structure IsLoaded (compiled : CompiledSchema) (schema : Schema) : Prop where
  types : ∀ name ∈ compiled.registry.names, ∃ type, compiled.registry.get? name = some type ∧
    type.name = name ∧ type.IsLoaded schema
  listed : ∀ name, name ∈ schema.messageNames ↔ name ∈ compiled.registry.names
  nodup : schema.messageNames.Nodup

variable {definitions : List RecordDefinition} {compiled : CompiledSchema}

/-- A schema that the document of a sound compilation links to has the types of its registry. -/
theorem IsSound.isLoaded (hs : compiled.IsSound definitions) (hlinkable : compiled.document.IsLinkable)
    {schema : Schema} (hl : compiled.document.IsLinked schema) : compiled.IsLoaded schema := by
  refine ⟨fun name hname => ?_, fun name => (hl.listed name).trans (hs.listed name).symm, hl.nodup⟩
  obtain ⟨b, hb, rfl⟩ := List.mem_map.mp ((hs.listed name).mp hname)
  obtain ⟨type, htype, htypeName, hlaid, hfields⟩ := hs.registered b hb
  have hlinked : b.linked = type.linked := by
    rw [MessageBlock.linked, hfields, List.map_map, RegisteredType.linked, htypeName]
    rfl
  have hnumbers : ∀ f ∈ type.fields, f.number < 2 ^ 29 := by
    intro f hf
    have hline : f.line ∈ b.fields := hfields ▸ List.mem_map_of_mem hf
    exact (hlinkable.numbers f.line (List.mem_flatMap.mpr ⟨b, hb, hline⟩)).2.1
  refine ⟨type, htype, htypeName, ⟨hlaid, ?_, ?_, ?_, hnumbers⟩⟩
  · rw [htypeName]
    exact b.name.wellFormed
  · rw [htypeName]
    exact hs.names_suffix b hb
  · rw [htypeName, ← hlinked]
    exact hl.message b hb

/-- In each lineage of the definitions, `type` and the declared record keys are distinct in lower case. -/
def AreKeysApart (definitions : List RecordDefinition) : Prop :=
  ∀ d ∈ definitions, ∀ chain, Lineage definitions d chain →
    ((typeField :: declaredKeys chain).map lowerCase).Nodup

/-- The folded names of the lines of a type are its record keys in lower case. -/
theorem map_foldedName_lines {type : RegisteredType} (h : type.IsLaidOut) :
    (type.fields.map RegisteredField.line).map (fun f => foldedName f.name) =
      (type.fields.map RegisteredField.name).map lowerCase := by
  rw [List.map_map, List.map_map]
  apply List.map_congr_left
  intro f hf
  show foldedName f.protoName = lowerCase f.name
  rw [h.protoNames f hf, foldedName_snakeCase (h.keys f hf)]

/-- The folded names of each block are distinct exactly if `AreKeysApart`. -/
theorem IsSound.names_iff (hs : compiled.IsSound definitions)
    (hids : (definitions.map (·.id)).Nodup) :
    (∀ b ∈ compiled.document.messages, (b.fields.map fun f => foldedName f.name).Nodup) ↔
      AreKeysApart definitions := by
  constructor
  · intro h d hd chain hchain
    obtain ⟨own, hown, type, htype, hnames⟩ := hs.keys d hd
    have hname : MessageName.stem d.id ++ messageSuffix ∈
        compiled.document.messages.map fun b => b.name.text := by
      rw [hs.derived]
      exact List.mem_map_of_mem (f := fun d : RecordDefinition => MessageName.stem d.id ++ messageSuffix) hd
    obtain ⟨b, hb, hbname⟩ := List.mem_map.mp hname
    obtain ⟨registered, hregistered, -, hlaid, hfields⟩ := hs.registered b hb
    rw [hbname, htype, Option.some.injEq] at hregistered
    have hnodup := h b hb
    rw [hfields, ← hregistered] at hnodup
    rw [hchain.unique hids hown, ← hnames, ← map_foldedName_lines (hregistered ▸ hlaid)]
    exact hnodup
  · intro h b hb
    obtain ⟨registered, hregistered, -, hlaid, hfields⟩ := hs.registered b hb
    have hname : b.name.text ∈ definitions.map fun d => MessageName.stem d.id ++ messageSuffix := by
      rw [← hs.derived]
      exact List.mem_map_of_mem (f := fun b : MessageBlock => b.name.text) hb
    obtain ⟨d, hd, hdname⟩ := List.mem_map.mp hname
    obtain ⟨own, hown, type, htype, hnames⟩ := hs.keys d hd
    rw [hdname, hregistered, Option.some.injEq] at htype
    rw [hfields, map_foldedName_lines hlaid, htype, hnames]
    exact h d hd own hown

/-- The text of a compilation is loaded exactly if its document `IsLinkable`, and the schema then has the types
of the registry. -/
theorem exists_isLoaded (h : compile definitions = .ok compiled) :
    ∃ schema, (compiled.document.IsLinkable → compiled.IsLoaded schema) ∧
      ∀ store, SchemaStore.loadText {} compiled.document.text = .ok store ↔
        compiled.document.IsLinkable ∧ store = ⟨some schema⟩ := by
  have hs := Compilation.isSound_of_compile h
  have hw := hs.toIsWellFormed
  obtain ⟨schema, hlinked, hload⟩ := SchemaDocument.exists_isLinked hw hw.isPlain hw.isReadable
  refine ⟨schema, fun hlinkable => hs.isLoaded hlinkable hlinked, fun store => ?_⟩
  rw [SchemaStore.loadText_eq_ok_iff]
  simp only [hload]
  constructor
  · rintro ⟨_, ⟨hlinkable, rfl⟩, hstore⟩
    exact ⟨hlinkable, hstore⟩
  · rintro ⟨hlinkable, hstore⟩
    exact ⟨schema, ⟨hlinkable, rfl⟩, hstore⟩

/-- A type that the registry gives has the name that it was asked for, and is loaded. -/
theorem IsLoaded.of_get? {schema : Schema} (hl : compiled.IsLoaded schema) {name : String} {type : RegisteredType}
    (h : compiled.registry.get? name = some type) : type.name = name ∧ type.IsLoaded schema := by
  obtain ⟨found, hfound, hfoundName, hloaded⟩ := hl.types name (Registry.mem_names_of_get? h)
  rw [h, Option.some.injEq] at hfound
  exact hfound ▸ ⟨hfoundName, hloaded⟩

/-- A store that `loadText` gives for the text of a compilation holds a schema with the types of the
registry. -/
theorem exists_isLoaded_of_loadText (h : compile definitions = .ok compiled) {store : SchemaStore}
    (hload : SchemaStore.loadText {} compiled.document.text = .ok store) :
    ∃ schema, store = ⟨some schema⟩ ∧ compiled.IsLoaded schema := by
  obtain ⟨schema, hloaded, hstores⟩ := exists_isLoaded h
  obtain ⟨hlinkable, hstore⟩ := (hstores store).mp hload
  exact ⟨schema, hstore, hloaded hlinkable⟩

/-- Where all numbers are permitted, the document of a compilation `IsLinkable` exactly if `AreKeysApart`. -/
theorem isLinkable_iff_areKeysApart (h : compile definitions = .ok compiled)
    (hn : ∀ f ∈ compiled.document.fields, IsPermitted f.number) :
    compiled.document.IsLinkable ↔ AreKeysApart definitions := by
  have hids : (definitions.map (·.id)).Nodup := by
    obtain ⟨catalog, hcatalog, hc, -⟩ := (Compilation.compile_eq_ok_iff _ _).mp h
    obtain ⟨-, rfl⟩ := Catalog.isListing_of_ofDefinitions hcatalog
    exact Catalog.ids_eq_map_definitions catalog ▸ hc.ids_nodup
  rw [← (Compilation.isSound_of_compile h).names_iff hids]
  exact ⟨fun hl => hl.names, fun hnames => ⟨hn, hnames⟩⟩

end CompiledSchema

namespace RegisteredType.IsLoaded

variable {type : RegisteredType} {schema : Schema}

/-- The name of a loaded type is an identifier. -/
theorem isIdentifier_name (h : type.IsLoaded schema) : isIdentifier type.name = true := by
  have hwf := h.wellFormed
  simp only [isMessageName, Bool.and_eq_true] at hwf
  exact hwf.1.2

/-- Under the name of a loaded type `find?` gives its linked type. -/
theorem find?_eq_some (h : type.IsLoaded schema) : schema.find? type.name = some type.linked := by
  rw [Schema.find?, lookup?_eq (not_isAbsolute_of_isIdentifier h.isIdentifier_name), h.linked]

/-- Under the name of a loaded type `SchemaStore.find` succeeds with its linked type. -/
theorem find_eq_ok (h : type.IsLoaded schema) :
    SchemaStore.find ⟨some schema⟩ type.name = .ok (schema, type.linked) := by
  unfold SchemaStore.find SchemaStore.schema
  rw [bind_eq_ok_iff]
  exact ⟨schema, rfl, by rw [h.find?_eq_some]⟩

/-- The name of a loaded type is its own `bareName`. -/
theorem bareName_name (h : type.IsLoaded schema) : bareName type.name = type.name :=
  bareName_eq_self (point_not_mem_of_isIdentifier h.isIdentifier_name)

end RegisteredType.IsLoaded

namespace CompiledSchema.IsLoaded

variable {compiled : CompiledSchema} {schema : Schema}

/-- The types that a loaded schema registers are its message names with the fields that the compiled registry
has for them. -/
theorem registered_eq (hl : compiled.IsLoaded schema) :
    schema.registered = schema.messageNames.map fun name =>
      { name, fields := ((compiled.registry.get? name).map RegisteredType.fields).getD [] } := by
  rw [Schema.registered, List.map_eq_flatMap]
  apply List.flatMap_congr
  intro name hname
  obtain ⟨type, htype, rfl, ht⟩ := hl.types name ((hl.listed name).mp hname)
  rw [ht.find?_eq_some, htype]
  dsimp only
  rw [if_neg fun hbare => hbare.1 ht.bareName_name, MessageType.registered, ht.registeredFields_linked]
  rfl

/-- The registry of a loaded schema gives a type with the fields that the compiled registry has for it. -/
theorem get?_registry (hl : compiled.IsLoaded schema) {name : String} {type : RegisteredType}
    (h : compiled.registry.get? name = some type) :
    schema.registry.get? name = some { name, fields := type.fields } := by
  have hkeys : ((schema.registered.map fun t => (t.name, t)).map Prod.fst) = schema.messageNames := by
    rw [hl.registered_eq, List.map_map, List.map_map]
    exact List.map_id _
  have hmem : (name, ({ name, fields := type.fields } : RegisteredType)) ∈
      schema.registered.map fun t => (t.name, t) := by
    rw [hl.registered_eq, List.map_map]
    refine List.mem_map.mpr ⟨name, (hl.listed name).mpr (Registry.mem_names_of_get? h), ?_⟩
    rw [Function.comp_apply, h]
    rfl
  rw [Registry.get?, Schema.registry, Registry.types_ofList, Entries.get?_ofList (hkeys.symm ▸ hl.nodup)]
  exact Assoc.get?_eq_some_of_mem (hkeys.symm ▸ hl.nodup) hmem

end CompiledSchema.IsLoaded

/-! ## Loading -/

namespace SchemaStore

/-- The message names of the store are those of the registry, and each leads to a type with the fields of the
registry and `type` for its tag. -/
def Lists (store : SchemaStore) (registry : Registry) : Prop :=
  (∃ names, store.messageNames = .ok names ∧ ∀ name, name ∈ names ↔ name ∈ registry.names) ∧
    ∀ name ∈ registry.names, ∃ registered schema type, registry.get? name = some registered ∧
      store.find name = .ok (schema, type) ∧ type.registeredFields = registered.fields ∧
      type.hasTypeTag = true

end SchemaStore

/-- The definitions compile, and all field numbers of the document are permitted. -/
def CompilesPermitted (definitions : List RecordDefinition) : Prop :=
  ∃ compiled, compile definitions = .ok compiled ∧
    ∀ f ∈ compiled.document.fields, IsPermitted f.number

/-- May a field have the number? -/
instance (number : Nat) : Decidable (IsPermitted number) :=
  inferInstanceAs (Decidable (_ ∧ _ ∧ _))

/-- Whether definitions compile with permitted numbers is found by compiling them. -/
instance (definitions : List RecordDefinition) : Decidable (CompilesPermitted definitions) :=
  match h : compile definitions with
  | .ok compiled =>
    decidable_of_iff (∀ f ∈ compiled.document.fields, IsPermitted f.number)
      ⟨fun hn => ⟨compiled, h, hn⟩, fun ⟨_, hother, hn⟩ => Except.ok.inj (h.symm.trans hother) ▸ hn⟩
  | .error _ => isFalse fun ⟨_, hok, _⟩ => nomatch h.symm.trans hok

/-- The definitions compile, and the document `IsLinkable`. -/
def CompilesLinkable (definitions : List RecordDefinition) : Prop :=
  ∃ compiled, compile definitions = .ok compiled ∧ compiled.document.IsLinkable

/-- Whether a document can be linked is found by looking at its blocks. -/
instance (document : SchemaDocument) : Decidable document.IsLinkable :=
  decidable_of_iff ((∀ f ∈ document.fields, IsPermitted f.number) ∧
      ∀ b ∈ document.messages, (b.fields.map fun f => foldedName f.name).Nodup)
    ⟨fun h => ⟨h.1, h.2⟩, fun h => ⟨h.numbers, h.names⟩⟩

/-- Whether definitions compile to a document that can be linked is found by compiling them. -/
instance (definitions : List RecordDefinition) : Decidable (CompilesLinkable definitions) :=
  match h : compile definitions with
  | .ok compiled =>
    decidable_of_iff compiled.document.IsLinkable
      ⟨fun hl => ⟨compiled, h, hl⟩, fun ⟨_, hother, hl⟩ => Except.ok.inj (h.symm.trans hother) ▸ hl⟩
  | .error _ => isFalse fun ⟨_, hok, _⟩ => nomatch h.symm.trans hok

/-- The definition with this id and a text field for each of the keys. -/
def textRecord (id : RecordId) (keys : List String) : RecordDefinition :=
  { id, fields := keys.map fun key => (key, { kind := .scalar .string }) }

/-- The keys that a `textRecord` declares are those that it is made of. -/
theorem declaredKeys_textRecord (id : RecordId) (keys : List String) :
    declaredKeys [textRecord id keys] = keys := by
  simp [declaredKeys, textRecord, Function.comp_def]

/-- A `textRecord` has no parent, so its lineage is itself. -/
theorem lineage_textRecord_iff {definitions : List RecordDefinition} {id : RecordId} {keys : List String}
    {chain : List RecordDefinition} :
    Lineage definitions (textRecord id keys) chain ↔ chain = [textRecord id keys] := by
  constructor
  · intro h
    cases h with
    | root hp => rfl
    | child hp hm hc => cases hp
  · rintro rfl
    exact .root rfl

/-- The keys of a single `textRecord` are apart exactly if they and `type` are distinct in lower case. -/
theorem areKeysApart_textRecord (id : RecordId) (keys : List String) :
    CompiledSchema.AreKeysApart [textRecord id keys] ↔
      ((typeField :: keys).map lowerCase).Nodup := by
  simp only [CompiledSchema.AreKeysApart, List.mem_singleton, forall_eq, lineage_textRecord_iff,
    declaredKeys_textRecord]

/-- `SchemaStore.loadText` accepts the text of a compilation whose numbers are all permitted exactly when no two
record keys of a lineage agree up to letter case (`AreKeysApart`).  The store that it gives lists the types of
the compiled registry, with their names, fields and tags (`Lists`). -/
theorem CompiledSchema.loadText_iff_areKeysApart {definitions : List RecordDefinition}
    {compiled : CompiledSchema} (h : compile definitions = .ok compiled)
    (hn : ∀ f ∈ compiled.document.fields, IsPermitted f.number) :
    ((∃ store, SchemaStore.loadText {} compiled.document.text = .ok store) ↔
        AreKeysApart definitions) ∧
      ∀ store, SchemaStore.loadText {} compiled.document.text = .ok store →
        store.Lists compiled.registry := by
  obtain ⟨schema, hloaded, hload⟩ := exists_isLoaded h
  rw [← isLinkable_iff_areKeysApart h hn]
  refine ⟨?_, fun store hstore => ?_⟩
  · constructor
    · rintro ⟨store, hstore⟩
      exact ((hload store).mp hstore).1
    · intro hlinkable
      exact ⟨_, (hload _).mpr ⟨hlinkable, rfl⟩⟩
  · obtain ⟨hlinkable, rfl⟩ := (hload store).mp hstore
    refine ⟨⟨schema.messageNames, rfl, (hloaded hlinkable).listed⟩, fun name hname => ?_⟩
    obtain ⟨type, htype, rfl, htypeLoaded⟩ := (hloaded hlinkable).types name hname
    exact ⟨type, schema, type.linked, htype, htypeLoaded.find_eq_ok,
      htypeLoaded.registeredFields_linked, htypeLoaded.hasTypeTag_linked⟩

/-- `fooBar` and `foo` differ in more than their letter case, and the document loads. -/
theorem CompiledSchema.loadText_twoKeys : CompilesPermitted [textRecord "X" ["fooBar", "foo"]] ∧
    ∃ compiled, compile [textRecord "X" ["fooBar", "foo"]] = .ok compiled ∧
      ∃ store, SchemaStore.loadText {} compiled.document.text = .ok store ∧
        store.Lists compiled.registry := by
  have hcompiles : CompilesPermitted [textRecord "X" ["fooBar", "foo"]] := by decide +kernel
  obtain ⟨compiled, hc, hn⟩ := hcompiles
  obtain ⟨hiff, hlists⟩ := CompiledSchema.loadText_iff_areKeysApart hc hn
  obtain ⟨store, hstore⟩ := hiff.mpr ((areKeysApart_textRecord "X" _).mpr (by decide))
  exact ⟨⟨compiled, hc, hn⟩, compiled, hc, store, hstore, hlists store hstore⟩

/-- `fooBar` and `foobar` differ in their letter case only: `compile` accepts them, and `loadText` refuses the
document. -/
theorem CompiledSchema.loadText_caseVariants :
    ∃ compiled, compile [textRecord "X" ["fooBar", "foobar"]] = .ok compiled ∧
      (∀ f ∈ compiled.document.fields, IsPermitted f.number) ∧
      ∀ store, SchemaStore.loadText {} compiled.document.text ≠ .ok store := by
  have hcompiles : CompilesPermitted [textRecord "X" ["fooBar", "foobar"]] := by decide +kernel
  obtain ⟨compiled, hc, hn⟩ := hcompiles
  obtain ⟨schema, -, hload⟩ := CompiledSchema.exists_isLoaded hc
  refine ⟨compiled, hc, hn, fun store hstore => ?_⟩
  have hapart := (CompiledSchema.isLinkable_iff_areKeysApart hc hn).mp ((hload store).mp hstore).1
  have hkeys := (areKeysApart_textRecord "X" _).mp hapart
  exact absurd hkeys (by decide)

end Tagwire
