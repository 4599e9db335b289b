import Tagwire.Proofs.Layout

/-!
# The messages of a compilation

What a compilation gives for a definition depends on the lineage of the definition alone: the text of the
type and then the fields that the lineage declares, numbered by their places, each under the record key
that it was declared with.  The document and the registry have the same messages with the same fields, and
the parents in the registry lead along the lineage to the base message, which no definition is named after.
-/

set_option autoImplicit false

namespace Tagwire

/-! ## The fields of a lineage -/

/-- The message name that is derived from an identity: its stem followed by `messageSuffix`. -/
def derivedName (id : RecordId) : String := MessageName.stem id ++ messageSuffix

/-- How a document writes a kind: a keyword, a full name, or the derived name of a record. -/
def FieldKind.text : FieldKind → String
  | .scalar kind => kind.keyword
  | .wellKnown kind => kind.typeName
  | .record target => derivedName target

/-- The registered field for a declared one under a number, its `protoName` being the `snakeCase` form of its
key. -/
def placedField (number : Nat) (declared : String × FieldDefinition) : RegisteredField :=
  { name := declared.1
    protoName := snakeCase declared.1
    number
    typeName := declared.2.kind.text
    repeated := declared.2.repeated }

/-- The fields that the definitions of a lineage declare, those of the root first. -/
def declaredFields (chain : List RecordDefinition) : List (String × FieldDefinition) :=
  chain.flatMap RecordDefinition.fields

/-- The fields of the message at the end of a lineage: `typeTag` with number 1, and the declared ones from
number 2 on. -/
def messageFields (chain : List RecordDefinition) : List RegisteredField :=
  .typeTag :: (declaredFields chain).mapIdx fun i f => placedField (i + 2) f

/-- The message name of the parent of a definition, or `baseMessage`. -/
def parentName (d : RecordDefinition) : String := (d.parent.map derivedName).getD baseMessage

/-- The parents in a registry lead from a name through those of a path to `baseMessage`. -/
inductive Registry.LeadsToBase (registry : Registry) : String → List String → Prop
  | base : LeadsToBase registry baseMessage []
  | parent {name : String} {path : List String} {type : RegisteredType}
    (htype : registry.get? name = some type) (h : LeadsToBase registry type.parent path) :
    LeadsToBase registry name (name :: path)

/-- The block and the registered type of a definition are those that its lineage gives. -/
structure MessageBlock.IsLaidOutFor (definitions : List RecordDefinition) (registry : Registry)
    (d : RecordDefinition) (block : MessageBlock) (type : RegisteredType)
    (chain : List RecordDefinition) : Prop where
  lineage : Lineage definitions d chain
  name : block.name.text = derivedName d.id
  registered : registry.get? block.name.text = some type
  typeName : type.name = block.name.text
  fields : type.fields = messageFields chain
  lines : block.fields = type.fields.map RegisteredField.line
  keys_nodup : (type.fields.map RegisteredField.name).Nodup
  protoNames_nodup : (type.fields.map RegisteredField.protoName).Nodup
  parent : type.parent = parentName d

/-- The document has a message for each definition in order, the parents of each lead through distinct names
to the base message, and the registry has the same messages and not the base message. -/
structure CompiledSchema.IsLaidOutFor (definitions : List RecordDefinition) (compiled : CompiledSchema) :
    Prop where
  messages : List.Forall₂ (fun d block => d.messageName = .ok block.name ∧ ∃ type chain path,
      block.IsLaidOutFor definitions compiled.registry d type chain ∧
        compiled.registry.LeadsToBase type.name path ∧ path.Nodup)
    definitions compiled.document.messages
  names : compiled.registry.names.Perm (compiled.document.messages.map fun b => b.name.text)
  base : baseMessage ∉ compiled.registry.names

namespace Catalog

variable {catalog : Catalog}

/-- `Catalog.messageName` of a listed identity is its derived name. -/
theorem IsListing.messageName_eq (hl : catalog.IsListing) {id : RecordId} (h : id ∈ catalog.ids) :
    catalog.messageName id = derivedName id := by
  obtain ⟨e, he⟩ := exists_get?_of_mem_ids h
  obtain ⟨hmem, rfl⟩ := mem_of_get?_eq_some he
  rw [messageName, he, derivedName, ← hl.derived e hmem]
  rfl

/-- `layField` of a declaration of the catalog is `placedField`. -/
theorem IsListing.layField_eq (hl : catalog.IsListing) {d : Declaration} (hd : catalog.IsDeclared d)
    (number : Nat) : catalog.layField number d = placedField number (d.name, d.field) := by
  have htext : catalog.typeName d.field.kind = d.field.kind.text := by
    cases hk : d.field.kind with
    | scalar kind => rfl
    | wellKnown kind => rfl
    | record target => exact hl.messageName_eq (hd.target target hk)
  rw [layField, placedField, lowerCamel_snakeCase hd.key, htext]

/-- `layFields` of declarations of the catalog places them one behind the other. -/
theorem IsListing.layFields_eq (hl : catalog.IsListing) {ds : List Declaration}
    (h : ∀ d ∈ ds, catalog.IsDeclared d) (number : Nat) : catalog.layFields number ds =
      (ds.map fun d => (d.name, d.field)).mapIdx fun i f => placedField (i + number) f := by
  induction ds generalizing number with
  | nil => rfl
  | cons d rest ih =>
    rw [layFields, ih (fun d' hd' => h d' (by simp [hd'])), hl.layField_eq (h d (by simp)),
      List.map_cons, List.mapIdx_cons, Nat.zero_add]
    congr 1
    have hshift : ∀ i, i + 1 + number = i + (number + 1) := fun i => by omega
    simp only [hshift]

/-- `layout` of a definition of a checked catalog is `messageFields` of its lineage. -/
theorem IsChecked.layout_eq (hc : catalog.IsChecked) {d : RecordDefinition}
    (hd : d ∈ catalog.definitions) :
    catalog.layout (Declaration.ofLineage (catalog.lineage d)) = messageFields (catalog.lineage d) := by
  have hdeclared : (Declaration.ofLineage (catalog.lineage d)).map (fun d => (d.name, d.field)) =
      declaredFields (catalog.lineage d) := by
    simp [Declaration.ofLineage, declaredFields, List.map_flatMap, Function.comp_def]
  rw [layout, hc.toIsListing.layFields_eq (hc.isDeclared hd), hdeclared, messageFields]

/-- The parent of a definition of a checked catalog has its derived name. -/
theorem IsChecked.parentName_eq (hc : catalog.IsChecked) {d : RecordDefinition}
    (hd : d ∈ catalog.definitions) :
    (d.parent.map catalog.messageName).getD baseMessage = parentName d := by
  unfold parentName
  cases hp : d.parent with
  | none => rfl
  | some parent =>
    have hlisted := (hc.passes d hd).2.1 parent ((mem_references_iff d parent).mpr (.inl hp))
    exact hc.toIsListing.messageName_eq hlisted

end Catalog

/-- No two fields of a laid out type share their `protoName`, since `lowerCamel` gives their record keys
back. -/
theorem RegisteredType.IsLaidOut.protoNames_nodup {type : RegisteredType} (h : type.IsLaidOut) :
    (type.fields.map RegisteredField.protoName).Nodup := by
  have hnames : type.fields.map RegisteredField.protoName =
      (type.fields.map RegisteredField.name).map snakeCase := by
    rw [List.map_map]
    exact List.map_congr_left h.protoNames
  rw [hnames]
  refine List.Nodup.map_on (fun a ha b hb => ?_) h.names_nodup
  obtain ⟨f, hf, rfl⟩ := List.mem_map.mp ha
  obtain ⟨g, hg, rfl⟩ := List.mem_map.mp hb
  exact snakeCase_injective (h.keys f hf) (h.keys g hg)

namespace Compilation

variable {definitions : List RecordDefinition} {compiled : CompiledSchema}

/-- The message of a listed definition is laid out from its lineage. -/
theorem IsMessage.isLaidOutFor {catalog : Catalog} {messages : List Message} (hc : catalog.IsChecked)
    (hm : List.Forall₂ (IsMessage catalog) catalog messages) {e : CatalogEntry} (he : e ∈ catalog)
    {message : Message} (hmem : message ∈ messages) (h : IsMessage catalog e message) :
    message.block.IsLaidOutFor catalog.definitions (schemaOf messages).registry e.definition
      message.registeredType (catalog.lineage e.definition) := by
  have hd : e.definition ∈ catalog.definitions := List.mem_map_of_mem he
  have hlaid := h.isLaidOut hc he
  exact
    { lineage := hc.lineage hd
      name := by
        rw [derivedName, ← hc.derived e he, ← h.name]
        rfl
      registered := get?_schemaOf hc.toIsListing hm hmem
      typeName := rfl
      fields := (h.fields.trans (by rw [h.declarations])).trans (hc.layout_eq hd)
      lines := rfl
      keys_nodup := hlaid.names_nodup
      protoNames_nodup := hlaid.protoNames_nodup
      parent := h.parent.trans (hc.parentName_eq hd) }

/-- The blocks of the document that `compile` gives are laid out for the definitions, one for each and in their
order. -/
theorem blocks_of_compile (h : compile definitions = .ok compiled) :
    List.Forall₂ (fun d block => ∃ type chain, block.IsLaidOutFor definitions compiled.registry d type chain)
      definitions compiled.document.messages := by
  obtain ⟨catalog, hcatalog, hc, messages, hmessages, rfl⟩ := (compile_eq_ok_iff _ _).mp h
  have hm : List.Forall₂ (IsMessage catalog) catalog messages :=
    hmessages.imp fun _ _ => isMessage_of_messageOf
  obtain ⟨-, rfl⟩ := Catalog.isListing_of_ofDefinitions hcatalog
  rw [Catalog.definitions, List.forall₂_map_left_iff, List.forall₂_map_right_iff]
  refine List.forall₂_iff_zip.mpr ⟨hm.length_eq, fun {e message} hzip => ?_⟩
  obtain ⟨he, hmem⟩ := List.of_mem_zip hzip
  exact ⟨_, _, ((List.forall₂_iff_zip.mp hm).2 hzip).isLaidOutFor hc hm he hmem⟩

/-- The registry that `compile` gives has no name twice. -/
theorem registry_names_nodup (h : compile definitions = .ok compiled) :
    compiled.registry.names.Nodup := by
  obtain ⟨catalog, -, -, messages, -, rfl⟩ := (compile_eq_ok_iff _ _).mp h
  rw [Registry.names, Registry.types_ofList]
  exact (Entries.isSorted_ofList _).nodup

/-- The parents in the registry lead from the derived name of a definition along its lineage to
`baseMessage`. -/
theorem leadsToBase_of_lineage {d : RecordDefinition} {chain : List RecordDefinition}
    (hregistered : ∀ d ∈ definitions, ∃ type, compiled.registry.get? (derivedName d.id) = some type ∧
      type.parent = parentName d) (h : Lineage definitions d chain) (hd : d ∈ definitions) :
    compiled.registry.LeadsToBase (derivedName d.id) (chain.map (derivedName ·.id)).reverse := by
  induction h with
  | @root d hp =>
    obtain ⟨type, htype, hparent⟩ := hregistered d hd
    rw [parentName, hp] at hparent
    refine .parent htype ?_
    rw [hparent]
    exact .base
  | @child d p chain hp hm _ ih =>
    obtain ⟨type, htype, hparent⟩ := hregistered d hd
    rw [parentName, hp] at hparent
    rw [List.map_append, List.map_singleton, List.reverse_append, List.reverse_singleton,
      List.singleton_append]
    refine .parent htype ?_
    rw [hparent]
    exact ih hm

/-- No derived name is twice along a lineage. -/
theorem map_derivedName_nodup (ha : Admissible definitions) {d : RecordDefinition} (hd : d ∈ definitions)
    {chain : List RecordDefinition} (h : Lineage definitions d chain) :
    (chain.map (derivedName ·.id)).Nodup := by
  have hchain : chain.Nodup := List.Nodup.of_map _ (h.ids_nodup hd ha.acyclic)
  refine List.Nodup.map_on (fun a hmem b hmem' => ?_) hchain
  exact List.inj_on_of_nodup_map ha.names_nodup (h.mem_definitions hd a hmem)
    (h.mem_definitions hd b hmem')

/-- No derived name is `baseMessage`, as no stem is empty. -/
theorem derivedName_ne_baseMessage (ha : Admissible definitions) {d : RecordDefinition}
    (hd : d ∈ definitions) : derivedName d.id ≠ baseMessage := by
  obtain ⟨name, hname⟩ := (exists_ofId_eq_ok_iff d.id).mpr (ha.stems d hd)
  have hwf := name.wellFormed
  rw [ofId_eq_ok_iff.mp hname, isMessageName, Bool.and_eq_true, bne_iff_ne] at hwf
  exact hwf.2

/-- What `compile` gives is laid out for its definitions (`IsLaidOutFor`): the messages stand in the order of
the definitions, and each has the field `type` with number 1 and behind it the fields of its lineage, from the
root on, with consecutive numbers, distinct names and their kinds. -/
theorem isLaidOutFor_of_compile {definitions : List RecordDefinition} {compiled : CompiledSchema}
    (h : compile definitions = .ok compiled) : compiled.IsLaidOutFor definitions := by
  have ha := admissible_of_compile h
  have hs := isSound_of_compile h
  have hblocks := blocks_of_compile h
  have hregistered : ∀ d ∈ definitions, ∃ type,
      compiled.registry.get? (derivedName d.id) = some type ∧ type.parent = parentName d := by
    intro d hd
    obtain ⟨block, -, type, chain, hb⟩ := exists_of_forall₂ hblocks hd
    exact ⟨type, hb.name ▸ hb.registered, hb.parent⟩
  constructor
  case messages =>
    refine List.forall₂_iff_zip.mpr ⟨hblocks.length_eq, fun {d block} hzip => ?_⟩
    obtain ⟨hd, -⟩ := List.of_mem_zip hzip
    obtain ⟨type, chain, hb⟩ := (List.forall₂_iff_zip.mp hblocks).2 hzip
    have hpath := leadsToBase_of_lineage hregistered hb.lineage hd
    rw [← hb.name, ← hb.typeName] at hpath
    exact ⟨ofId_eq_ok_iff.mpr hb.name, type, chain, _, hb, hpath,
      List.nodup_reverse.mpr (map_derivedName_nodup ha hd hb.lineage)⟩
  case names =>
    exact (List.perm_ext_iff_of_nodup (registry_names_nodup h) hs.names_nodup).mpr hs.listed
  case base =>
    intro hbase
    have hmem := (hs.listed baseMessage).mp hbase
    rw [hs.derived] at hmem
    obtain ⟨d, hd, hname⟩ := List.mem_map.mp hmem
    exact derivedName_ne_baseMessage ha hd hname

/-- The definitions of a circle, which is a shape, of a shape, which is an item with an outline of circles,
and of an item. -/
def circleDefinitions : List RecordDefinition :=
  [{ id := "Circle", parent := some "ShapeSchemaDefinition"
     fields := [("radius", { kind := .scalar .double })] },
   { id := "ShapeSchemaDefinition", parent := some "Item",
     fields := [("createdAt", { kind := .wellKnown .timestamp })] },
   { id := "Item", fields := [("itemNames", { kind := .scalar .string, repeated := true })] },
   { id := "Board", fields := [("circles", { kind := .record "Circle", repeated := true })] }]

/-- `circleDefinitions` lists the circle before the shape and the item that it descends from; its registered
fields are still those of the item, of the shape and of the circle, numbered from 2 on. -/
theorem isLaidOutFor_circleDefinitions : ∃ compiled, compile circleDefinitions = .ok compiled ∧
    compiled.IsLaidOutFor circleDefinitions ∧
      (compiled.registry.get? "CircleMessage").map RegisteredType.fields =
        some [.typeTag, ⟨"itemNames", "item_names", 2, "string", true⟩,
          ⟨"createdAt", "created_at", 3, "google.protobuf.Timestamp", false⟩,
          ⟨"radius", "radius", 4, "double", false⟩] := by
  have hcompiles : (compile circleDefinitions).toOption.isSome = true := by decide +kernel
  have hfields : ((compile circleDefinitions).toOption.bind fun compiled =>
      (compiled.registry.get? "CircleMessage").map RegisteredType.fields) =
        some [.typeTag, ⟨"itemNames", "item_names", 2, "string", true⟩,
          ⟨"createdAt", "created_at", 3, "google.protobuf.Timestamp", false⟩,
          ⟨"radius", "radius", 4, "double", false⟩] := by decide +kernel
  obtain ⟨compiled, hcompiled⟩ := Option.isSome_iff_exists.mp hcompiles
  rw [hcompiled] at hfields
  have h := toOption_eq_some_iff.mp hcompiled
  exact ⟨compiled, h, isLaidOutFor_of_compile h, hfields⟩

end Compilation

end Tagwire
