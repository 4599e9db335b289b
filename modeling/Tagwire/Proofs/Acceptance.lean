import Tagwire.Proofs.Lineage

/-!
# Which definitions compile

The four phases of a compilation accept a list of definitions exactly when it is admissible, a property of
the list alone that mentions neither the catalog nor the order in which the phases look.  Each phase relies
on the ones before: the search on the parents and records that checking has found listed, and the layout on
the search, since only a list without cycles gives every definition a lineage.
-/

set_option autoImplicit false

namespace Tagwire

/-- What a definition list has to be for `compile` to accept it, in terms of the list alone: names that can be
derived and are apart, fields with record keys, references that are listed and form no cycle, and no record key
twice in a lineage. -/
structure Admissible (definitions : List RecordDefinition) : Prop where
  ids_nodup : (definitions.map (·.id)).Nodup
  stems : ∀ d ∈ definitions, isIdentifier (MessageName.stem d.id) = true ∧
    (MessageName.stem d.id).utf8ByteSize ≤ maxStemBytes
  names_nodup : (definitions.map fun d => MessageName.stem d.id ++ messageSuffix).Nodup
  fields_nonempty : ∀ d ∈ definitions, d.fields ≠ []
  references_listed : ∀ d ∈ definitions, ∀ id ∈ d.references, id ∈ definitions.map (·.id)
  keys_valid : ∀ d ∈ definitions, ∀ f ∈ d.fields, isRecordKey f.1 = true
  acyclic : IsAcyclic definitions
  keys_nodup : ∀ d ∈ definitions, ∀ chain, Lineage definitions d chain →
    (typeField :: declaredKeys chain).Nodup

/-- The derived message names are distinct exactly if the stems are, since all end in `messageSuffix`. -/
theorem nodup_names_iff_nodup_stems (definitions : List RecordDefinition) :
    (definitions.map fun d => MessageName.stem d.id ++ messageSuffix).Nodup ↔
      (definitions.map (MessageName.stem ·.id)).Nodup := by
  have hmap : (definitions.map fun d => MessageName.stem d.id ++ messageSuffix) =
      (definitions.map (MessageName.stem ·.id)).map (· ++ messageSuffix) := by
    rw [List.map_map]
    rfl
  rw [hmap]
  exact List.nodup_map_iff fun a b hab => (String.append_left_inj messageSuffix).mp hab

namespace Catalog

/-- What a catalog has that `ofDefinitions`, `check` and `checkAcyclic` have accepted. -/
structure IsChecked (catalog : Catalog) : Prop extends catalog.IsListing where
  passes : ∀ d ∈ catalog.definitions, d.fields ≠ [] ∧ (∀ id ∈ d.references, id ∈ catalog.ids) ∧
    ∀ f ∈ d.fields, isRecordKey f.1 = true
  acyclic : IsAcyclic catalog.definitions

/-- The references of definitions that `check` accepts are listed. -/
theorem refers_listed {catalog : Catalog}
    (h : ∀ d ∈ catalog.definitions, d.fields ≠ [] ∧ (∀ id ∈ d.references, id ∈ catalog.ids) ∧
      ∀ f ∈ d.fields, isRecordKey f.1 = true) :
    ∀ a b, Refers catalog.definitions a b → b ∈ catalog.ids := by
  rintro a b ⟨d, hd, rfl, hb⟩
  exact (h d hd).2.1 b hb

/-- `Catalog.lineage` of a checked catalog is the lineage of the definition. -/
theorem IsChecked.lineage {catalog : Catalog} (h : catalog.IsChecked) {d : RecordDefinition}
    (hd : d ∈ catalog.definitions) : Lineage catalog.definitions d (catalog.lineage d) :=
  lineage_spec h.ids_nodup (refers_listed h.passes)
    (acc_of_isAcyclic h.ids_nodup (refers_listed h.passes) h.acyclic) hd

end Catalog

namespace Compilation

/-- `messageOf` lays out a listed definition exactly if its lineage declares no record key twice, nor
`typeField`. -/
theorem exists_messageOf_iff (catalog : Catalog) (e : CatalogEntry) :
    (∃ message, messageOf catalog e = .ok message) ↔
      (typeField :: declaredKeys (catalog.lineage e.definition)).Nodup := by
  unfold messageOf
  simp only [bind_eq_ok_iff, Catalog.declarations_eq_ok_iff]
  constructor
  · rintro ⟨message, declarations, ⟨-, hn⟩, -⟩
    exact hn
  · intro hn
    exact ⟨_, _, ⟨rfl, hn⟩, rfl⟩

/-- `compile` succeeds exactly if the catalog of the definitions is checked and `messageOf` gives a message for
each; what it gives is made of these messages. -/
theorem compile_eq_ok_iff (definitions : List RecordDefinition) (compiled : CompiledSchema) :
    compile definitions = .ok compiled ↔
      ∃ catalog, Catalog.ofDefinitions definitions = .ok catalog ∧ catalog.IsChecked ∧
        ∃ messages, List.Forall₂ (fun e message => messageOf catalog e = .ok message) catalog messages ∧
          compiled =
            { document := { imports := importsOf messages, messages := messages.map Message.block }
              registry := .ofList (messages.map Message.registeredType) } := by
  unfold compile
  simp only [bind_eq_ok_iff, mapM_eq_ok_iff]
  constructor
  · rintro ⟨catalog, hcatalog, ⟨⟩, hcheck, ⟨⟩, hacyclic, messages, hmessages, hresult⟩
    obtain ⟨hl, -⟩ := Catalog.isListing_of_ofDefinitions hcatalog
    rw [Catalog.check_eq_ok_iff] at hcheck
    rw [Catalog.checkAcyclic_eq_ok_iff hl.ids_nodup (Catalog.refers_listed hcheck)] at hacyclic
    exact ⟨catalog, hcatalog, ⟨hl, hcheck, hacyclic⟩, messages, hmessages,
      (Except.ok.inj hresult).symm⟩
  · rintro ⟨catalog, hcatalog, hc, messages, hmessages, rfl⟩
    have hacyclic := (Catalog.checkAcyclic_eq_ok_iff hc.ids_nodup
      (Catalog.refers_listed hc.passes)).mpr hc.acyclic
    exact ⟨catalog, hcatalog, ⟨⟩, (Catalog.check_eq_ok_iff catalog).mpr hc.passes, ⟨⟩, hacyclic,
      messages, hmessages, rfl⟩

/-- A list that `compile` accepts is admissible. -/
theorem admissible_of_compile {definitions : List RecordDefinition} {compiled : CompiledSchema}
    (h : compile definitions = .ok compiled) : Admissible definitions := by
  obtain ⟨catalog, hcatalog, hc, messages, hmessages, -⟩ := (compile_eq_ok_iff _ _).mp h
  obtain ⟨hids, hstems, hnames⟩ :=
    (Catalog.exists_ofDefinitions_iff definitions).mp ⟨catalog, hcatalog⟩
  obtain ⟨-, rfl⟩ := Catalog.isListing_of_ofDefinitions hcatalog
  have hlisted := Catalog.ids_eq_map_definitions catalog
  exact
    { ids_nodup := hids
      stems := hstems
      names_nodup := (nodup_names_iff_nodup_stems _).mpr hnames
      fields_nonempty := fun d hd => (hc.passes d hd).1
      references_listed := fun d hd => hlisted ▸ (hc.passes d hd).2.1
      keys_valid := fun d hd => (hc.passes d hd).2.2
      acyclic := hc.acyclic
      keys_nodup := by
        intro d hd chain hchain
        obtain ⟨e, he, rfl⟩ := List.mem_map.mp hd
        rw [hchain.unique hids (hc.lineage hd), ← exists_messageOf_iff]
        obtain ⟨message, -, hmessage⟩ := exists_of_forall₂ hmessages he
        exact ⟨message, hmessage⟩ }

/-- `compile` accepts an admissible list. -/
theorem exists_compile_of_admissible {definitions : List RecordDefinition} (h : Admissible definitions) :
    ∃ compiled, compile definitions = .ok compiled := by
  obtain ⟨catalog, hcatalog⟩ := (Catalog.exists_ofDefinitions_iff definitions).mpr
    ⟨h.ids_nodup, h.stems, (nodup_names_iff_nodup_stems _).mp h.names_nodup⟩
  obtain ⟨hl, rfl⟩ := Catalog.isListing_of_ofDefinitions hcatalog
  have hc : catalog.IsChecked :=
    { toIsListing := hl
      passes := fun d hd => ⟨h.fields_nonempty d hd,
        Catalog.ids_eq_map_definitions catalog ▸ h.references_listed d hd, h.keys_valid d hd⟩
      acyclic := h.acyclic }
  have hmessage : ∀ e ∈ catalog, ∃ message, messageOf catalog e = .ok message := by
    intro e he
    have hd : e.definition ∈ catalog.definitions := List.mem_map_of_mem he
    exact (exists_messageOf_iff catalog e).mpr (h.keys_nodup _ hd _ (hc.lineage hd))
  obtain ⟨messages, hmessages⟩ := exists_forall₂ hmessage
  exact ⟨_, (compile_eq_ok_iff _ _).mpr ⟨catalog, hcatalog, hc, messages, hmessages, rfl⟩⟩

/-- `compile` gives a compiled schema for a definition list exactly when the list is `Admissible`: a predicate
on the list alone, which says nothing of the phases of the compiler. -/
theorem exists_compile_iff_admissible (definitions : List RecordDefinition) :
    (∃ compiled, compile definitions = .ok compiled) ↔ Admissible definitions :=
  ⟨fun ⟨_, h⟩ => admissible_of_compile h, exists_compile_of_admissible⟩

end Compilation

end Tagwire
