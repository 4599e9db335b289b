import Tagwire.Proofs.Layout.Messages

/-!
# Messages across compilations

The message of a definition depends on the definition and its ancestors only.  Where two lists of
definitions agree on these, the definition has the same message in both, whatever else the lists hold and
in whatever order; and where one list gives it further fields behind the others, its message has further
fields behind the others, too.
-/

set_option autoImplicit false

namespace Tagwire

/-- Ancestors with the same identities and the same fields of their own, one by one. -/
def AreSameAncestors (ancestors others : List RecordDefinition) : Prop :=
  List.Forall₂ (fun a b => a.id = b.id ∧ a.fields = b.fields) ancestors others

/-- The parent of a definition is the last of its ancestors, and none if there are none. -/
theorem Lineage.parent_eq {definitions : List RecordDefinition} {d : RecordDefinition}
    {ancestors : List RecordDefinition} (h : Lineage definitions d (ancestors ++ [d])) :
    d.parent = (ancestors.map (·.id)).getLast? := by
  generalize hchain : ancestors ++ [d] = chain at h
  cases h with
  | root hp =>
    have hempty : ancestors = [] := by simpa using hchain
    rw [hp, hempty]
    rfl
  | @child _ p inner hp hm h =>
    have hsame : ancestors = inner := List.append_cancel_right hchain
    rw [hp, hsame, h.eq_dropLast_append, List.map_append, List.map_singleton, List.getLast?_concat]

/-- `messageFields` of a lineage that declares further fields behind the others begins with those of the shorter
one. -/
theorem messageFields_prefix {chain other : List RecordDefinition}
    (h : declaredFields chain <+: declaredFields other) : messageFields chain <+: messageFields other := by
  obtain ⟨more, hmore⟩ := h
  rw [messageFields, messageFields, ← hmore, List.mapIdx_append]
  exact List.cons_prefix_cons.mpr ⟨rfl, List.prefix_append _ _⟩

namespace AreSameAncestors

variable {ancestors others : List RecordDefinition}

/-- The same ancestors have the same identities. -/
theorem map_id_eq (h : AreSameAncestors ancestors others) :
    ancestors.map (·.id) = others.map (·.id) :=
  (map_eq_map_of_forall₂ (h.imp fun _ _ hsame => hsame.1.symm)).symm

/-- The same ancestors declare the same fields. -/
theorem declaredFields_eq (h : AreSameAncestors ancestors others) :
    declaredFields ancestors = declaredFields others := by
  have hfields := map_eq_map_of_forall₂ (h.imp fun _ _ hsame => hsame.2.symm)
  rw [declaredFields, declaredFields, List.flatMap_def, List.flatMap_def, hfields]

/-- Behind the same ancestors, a definition whose fields begin with those of another declares fields that begin
with its. -/
theorem declaredFields_prefix (h : AreSameAncestors ancestors others) {d e : RecordDefinition}
    (hfields : d.fields <+: e.fields) :
    declaredFields (ancestors ++ [d]) <+: declaredFields (others ++ [e]) := by
  have hsplit : ∀ (chain : List RecordDefinition) (d : RecordDefinition),
      declaredFields (chain ++ [d]) = declaredFields chain ++ d.fields := by
    intro chain d
    simp [declaredFields]
  rw [hsplit, hsplit, h.declaredFields_eq]
  exact (List.prefix_append_right_inj _).mpr hfields

end AreSameAncestors

namespace Compilation

/-- A listed definition has a block and a registered type under its derived name, both laid out from its
lineage. -/
theorem exists_isLaidOutFor {definitions : List RecordDefinition} {compiled : CompiledSchema}
    (h : compile definitions = .ok compiled) {d : RecordDefinition} (hd : d ∈ definitions)
    {chain : List RecordDefinition} (hchain : Lineage definitions d chain) :
    ∃ block type, compiled.document.message? (derivedName d.id) = some block ∧
      compiled.registry.get? (derivedName d.id) = some type ∧
      block.IsLaidOutFor definitions compiled.registry d type chain := by
  have ha := admissible_of_compile h
  obtain ⟨block, hmem, type, own, hb⟩ := exists_of_forall₂ (blocks_of_compile h) hd
  have hfound := find?_eq_some_of_nodup (g := fun b : MessageBlock => b.name.text)
    (isSound_of_compile h).names_nodup hmem
  obtain rfl := hchain.unique ha.ids_nodup hb.lineage
  exact ⟨block, type, hb.name ▸ hfound, hb.name ▸ hb.registered, hb⟩

/-- Let two lists have a definition with one identity, the same ancestors with the same fields, and at first the
same fields of its own, with further ones behind them in the second list.  Then both compilations give it one
name and one parent, and the fields of its block and of its registered type in the first are a prefix of those
in the second; they are equal if its own fields are. -/
theorem fields_prefix_of_areSameAncestors {definitions others : List RecordDefinition}
    {compiled otherCompiled : CompiledSchema} (h : compile definitions = .ok compiled)
    (hother : compile others = .ok otherCompiled) {d e : RecordDefinition} (hd : d ∈ definitions)
    (he : e ∈ others) (hid : d.id = e.id) {ancestors otherAncestors : List RecordDefinition}
    (hchain : Lineage definitions d (ancestors ++ [d]))
    (hotherChain : Lineage others e (otherAncestors ++ [e]))
    (hsame : AreSameAncestors ancestors otherAncestors) (hfields : d.fields <+: e.fields) :
    ∃ name : MessageName, d.messageName = .ok name ∧ e.messageName = .ok name ∧
      ∃ block otherBlock type otherType, compiled.document.message? name.text = some block ∧
        otherCompiled.document.message? name.text = some otherBlock ∧
        compiled.registry.get? name.text = some type ∧
        otherCompiled.registry.get? name.text = some otherType ∧
        type.name = otherType.name ∧ type.parent = otherType.parent ∧
        block.fields <+: otherBlock.fields ∧ type.fields <+: otherType.fields ∧
        (d.fields = e.fields → block = otherBlock ∧ type.fields = otherType.fields) := by
  obtain ⟨block, type, hblock, htype, hb⟩ := exists_isLaidOutFor h hd hchain
  obtain ⟨otherBlock, otherType, hotherBlock, hotherType, hob⟩ := exists_isLaidOutFor hother he hotherChain
  have hname : block.name = otherBlock.name :=
    MessageName.text_injective (hb.name.trans ((congrArg derivedName hid).trans hob.name.symm))
  have hparent : d.parent = e.parent := by
    rw [hchain.parent_eq, hotherChain.parent_eq, hsame.map_id_eq]
  rw [← hb.name] at hblock htype
  rw [← hob.name, ← hname] at hotherBlock hotherType
  have htypes : type.fields <+: otherType.fields := by
    rw [hb.fields, hob.fields]
    exact messageFields_prefix (hsame.declaredFields_prefix hfields)
  refine ⟨block.name, ofId_eq_ok_iff.mpr hb.name, ofId_eq_ok_iff.mpr (hname ▸ hob.name), block, otherBlock,
    type, otherType, hblock, hotherBlock, htype, hotherType, ?_, ?_, ?_, htypes, fun heq => ?_⟩
  · rw [hb.typeName, hob.typeName, hname]
  · rw [hb.parent, hob.parent, parentName, parentName, hparent]
  · rw [hb.lines, hob.lines]
    exact htypes.map _
  · have hback : otherType.fields <+: type.fields := by
      rw [hb.fields, hob.fields]
      refine messageFields_prefix (AreSameAncestors.declaredFields_prefix ?_ (heq ▸ List.prefix_rfl))
      exact hsame.flip.imp fun _ _ hs => ⟨hs.1.symm, hs.2.symm⟩
    have hequal : type.fields = otherType.fields :=
      htypes.eq_of_length_le hback.length_le
    refine ⟨?_, hequal⟩
    have hlines : block.fields = otherBlock.fields := by rw [hb.lines, hob.lines, hequal]
    cases block
    cases otherBlock
    cases hname
    cases hlines
    rfl

/-- An item and a shape with one more field, among other definitions and in another order than in
`circleDefinitions`. -/
def labelDefinitions : List RecordDefinition :=
  [{ id := "Item", fields := [("itemNames", { kind := .scalar .string, repeated := true })] },
   { id := "Label", fields := [("text", { kind := .scalar .string })] },
   { id := "ShapeSchemaDefinition", parent := some "Item",
     fields := [("createdAt", { kind := .wellKnown .timestamp }), ("label", { kind := .record "Label" })] }]

/-- The shape of `labelDefinitions`, which adds a label, starts with the fields of the shape of
`circleDefinitions`. -/
theorem fields_prefix_labelDefinitions : ∃ compiled otherCompiled block otherBlock,
    compile circleDefinitions = .ok compiled ∧ compile labelDefinitions = .ok otherCompiled ∧
      compiled.document.message? "ShapeMessage" = some block ∧
      otherCompiled.document.message? "ShapeMessage" = some otherBlock ∧
      block.fields <+: otherBlock.fields := by
  have hcompiles : (compile circleDefinitions).toOption.isSome = true := by decide +kernel
  have hotherCompiles : (compile labelDefinitions).toOption.isSome = true := by decide +kernel
  obtain ⟨compiled, hcompiled⟩ := Option.isSome_iff_exists.mp hcompiles
  obtain ⟨otherCompiled, hotherCompiled⟩ := Option.isSome_iff_exists.mp hotherCompiles
  have hid : circleDefinitions[1].id = labelDefinitions[2].id := rfl
  have hchain : Lineage circleDefinitions circleDefinitions[1]
      ([circleDefinitions[2]] ++ [circleDefinitions[1]]) := .child rfl (by decide) (.root rfl)
  have hotherChain : Lineage labelDefinitions labelDefinitions[2]
      ([labelDefinitions[0]] ++ [labelDefinitions[2]]) := .child rfl (by decide) (.root rfl)
  obtain ⟨name, hname, -, block, otherBlock, type, otherType, hblock, hotherBlock, -, -, -, -, hprefix, -⟩ :=
    fields_prefix_of_areSameAncestors (toOption_eq_some_iff.mp hcompiled)
      (toOption_eq_some_iff.mp hotherCompiled) (by decide) (by decide) hid hchain hotherChain
      (.cons ⟨rfl, rfl⟩ .nil) (by decide)
  have htext : name.text = "ShapeMessage" := (ofId_eq_ok_iff.mp hname).trans (by decide)
  rw [htext] at hblock hotherBlock
  exact ⟨compiled, otherCompiled, block, otherBlock, toOption_eq_some_iff.mp hcompiled,
    toOption_eq_some_iff.mp hotherCompiled, hblock, hotherBlock, hprefix⟩

end Compilation

end Tagwire
