import Tagwire.Proofs.Layout

/-!
# The layout of a descendant

The lineage of a definition starts with the lineage of each of its ancestors, and numbers are given from the
root down.  So the message of a descendant has the fields of the ancestor's message as they are, and behind
them at least one more, since every definition on the way has fields of its own.
-/

set_option autoImplicit false

namespace Tagwire

/-- `p` is listed and is the parent of `d`. -/
def IsChildOf (definitions : List RecordDefinition) (d p : RecordDefinition) : Prop :=
  p ∈ definitions ∧ d.parent = some p.id

/-- `a` is the parent of `d`, or the parent of a definition that `d` descends from. -/
def DescendsFrom (definitions : List RecordDefinition) : RecordDefinition → RecordDefinition → Prop :=
  Relation.TransGen (IsChildOf definitions)

/-- The lineage of a definition begins with that of each of its ancestors. -/
theorem Lineage.exists_append {definitions : List RecordDefinition} {d a : RecordDefinition}
    {chain : List RecordDefinition} (hids : (definitions.map (·.id)).Nodup)
    (h : Lineage definitions d chain) (hancestor : DescendsFrom definitions d a) :
    ∃ own more, Lineage definitions a own ∧ chain = own ++ (more ++ [d]) := by
  induction h with
  | @root d hp =>
    obtain ⟨p, ⟨-, hparent⟩, -⟩ := Relation.TransGen.head'_iff.mp hancestor
    rw [hp] at hparent
    cases hparent
  | @child d p chain hp hm h ih =>
    obtain ⟨p', ⟨hm', hparent⟩, hrest⟩ := Relation.TransGen.head'_iff.mp hancestor
    have hsame : p = p' := by
      rw [hp, Option.some.injEq] at hparent
      exact List.inj_on_of_nodup_map hids hm hm' hparent
    subst hsame
    rcases Relation.reflTransGen_iff_eq_or_transGen.mp hrest with rfl | hfurther
    · exact ⟨chain, [], h, rfl⟩
    · obtain ⟨own, more, hown, rfl⟩ := ih hfurther
      exact ⟨own, more ++ [p], hown, by simp⟩

namespace Catalog

variable {catalog : Catalog}

/-- `layFields` numbers further declarations on behind the others. -/
theorem layFields_append (number : Nat) (ds more : List Declaration) :
    catalog.layFields number (ds ++ more) =
      catalog.layFields number ds ++ catalog.layFields (number + ds.length) more := by
  induction ds generalizing number with
  | nil => rfl
  | cons d rest ih =>
    rw [List.cons_append, layFields, ih, layFields, List.cons_append, List.length_cons]
    have hnumber : number + 1 + rest.length = number + (rest.length + 1) := by omega
    rw [hnumber]

/-- The fields that `layout` gives the lineage of a definition. -/
def fieldsOf (catalog : Catalog) (d : RecordDefinition) : List RegisteredField :=
  catalog.layout (Declaration.ofLineage (catalog.lineage d))

/-- The fields of an ancestor are a proper prefix of those of a descendant. -/
theorem IsChecked.fieldsOf_append (hc : catalog.IsChecked) {d a : RecordDefinition}
    (hd : d ∈ catalog.definitions) (hancestor : DescendsFrom catalog.definitions d a) :
    a ∈ catalog.definitions ∧ ∃ more, more ≠ [] ∧ catalog.fieldsOf d = catalog.fieldsOf a ++ more := by
  have hids := ids_eq_map_definitions catalog ▸ hc.ids_nodup
  have ha : a ∈ catalog.definitions := by
    obtain ⟨-, -, hlisted, -⟩ := Relation.TransGen.tail'_iff.mp hancestor
    exact hlisted
  obtain ⟨own, more, hown, hchain⟩ := (hc.lineage hd).exists_append hids hancestor
  have hsame : own = catalog.lineage a := hown.unique hids (hc.lineage ha)
  subst hsame
  refine ⟨ha, catalog.layFields (2 + (Declaration.ofLineage (catalog.lineage a)).length)
    (Declaration.ofLineage (more ++ [d])), fun hnil => ?_, ?_⟩
  · -- The descendant itself declares a field, which is numbered with the others.
    have hlength := congrArg List.length hnil
    obtain ⟨f, hf⟩ := List.exists_mem_of_ne_nil d.fields (hc.passes d hd).1
    have hdeclared : (⟨d.id, f.1, f.2⟩ : Declaration) ∈ Declaration.ofLineage (more ++ [d]) :=
      List.mem_flatMap.mpr ⟨d, by simp, List.mem_map_of_mem hf⟩
    rw [length_layFields, List.length_nil, List.length_eq_zero_iff] at hlength
    rw [hlength] at hdeclared
    cases hdeclared
  · unfold fieldsOf layout
    have hdeclarations : Declaration.ofLineage (catalog.lineage d) =
        Declaration.ofLineage (catalog.lineage a) ++ Declaration.ofLineage (more ++ [d]) := by
      unfold Declaration.ofLineage
      rw [hchain, List.flatMap_append]
    rw [hdeclarations, layFields_append]
    rfl

end Catalog

namespace Compilation

/-- A listed definition has a message name, under which the document and the registry have `fieldsOf` it. -/
theorem exists_fieldsOf {catalog : Catalog} {messages : List Message} (hl : catalog.IsListing)
    (hm : List.Forall₂ (IsMessage catalog) catalog messages) {d : RecordDefinition}
    (hd : d ∈ catalog.definitions) : ∃ name block type, d.messageName = .ok name ∧
      (schemaOf messages).document.message? name.text = some block ∧
      (schemaOf messages).registry.get? name.text = some type ∧
      type.fields = catalog.fieldsOf d ∧ block.fields = (catalog.fieldsOf d).map RegisteredField.line := by
  obtain ⟨e, he, rfl⟩ := List.mem_map.mp hd
  obtain ⟨message, hmem, h⟩ := exists_of_forall₂ hm he
  have hfields : message.fields = catalog.fieldsOf e.definition := by
    rw [h.fields, h.declarations]
    rfl
  have hfound := find?_eq_some_of_nodup (g := fun b : MessageBlock => b.name.text)
    (names_nodup_schemaOf hl hm) (List.mem_map_of_mem (f := Message.block) hmem)
  refine ⟨message.name, message.block, message.registeredType, ?_, hfound, get?_schemaOf hl hm hmem,
    hfields, ?_⟩
  · exact ofId_eq_ok_iff.mpr (h.name ▸ hl.derived e he)
  · rw [← hfields]
    rfl

/-- The block and the registered type of an ancestor have a proper prefix of the fields of those of a
descendant. -/
theorem exists_fields_append {definitions : List RecordDefinition} {compiled : CompiledSchema}
    (h : compile definitions = .ok compiled) {d a : RecordDefinition} (hd : d ∈ definitions)
    (hancestor : DescendsFrom definitions d a) :
    ∃ name ancestor : MessageName, d.messageName = .ok name ∧ a.messageName = .ok ancestor ∧
      (∃ block ancestorBlock more, compiled.document.message? name.text = some block ∧
        compiled.document.message? ancestor.text = some ancestorBlock ∧ more ≠ [] ∧
        block.fields = ancestorBlock.fields ++ more) ∧
      ∃ type ancestorType more, compiled.registry.get? name.text = some type ∧
        compiled.registry.get? ancestor.text = some ancestorType ∧ more ≠ [] ∧
        type.fields = ancestorType.fields ++ more := by
  obtain ⟨catalog, hcatalog, hc, messages, hmessages, rfl⟩ := (compile_eq_ok_iff _ _).mp h
  have hm : List.Forall₂ (IsMessage catalog) catalog messages :=
    hmessages.imp fun _ _ => isMessage_of_messageOf
  obtain ⟨-, rfl⟩ := Catalog.isListing_of_ofDefinitions hcatalog
  obtain ⟨ha, more, hmore, happend⟩ := hc.fieldsOf_append hd hancestor
  obtain ⟨name, block, type, hname, hblock, htype, hfields, hlines⟩ :=
    exists_fieldsOf hc.toIsListing hm hd
  obtain ⟨ancestor, ancestorBlock, ancestorType, hancestorName, hancestorBlock, hancestorType,
    hancestorFields, hancestorLines⟩ := exists_fieldsOf hc.toIsListing hm ha
  refine ⟨name, ancestor, hname, hancestorName,
    ⟨block, ancestorBlock, more.map RegisteredField.line, hblock, hancestorBlock, ?_, ?_⟩,
    type, ancestorType, more, htype, hancestorType, hmore, ?_⟩
  · rwa [ne_eq, List.map_eq_nil_iff]
  · rw [hlines, hancestorLines, happend, List.map_append]
  · rw [hfields, hancestorFields, happend]

end Compilation

end Tagwire
