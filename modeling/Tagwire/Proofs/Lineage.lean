import Tagwire.Compilation
import Tagwire.Proofs.References

/-!
# Lineages

The lineage of a definition leads from its root ancestor down to itself.  Where references are listed and
lead back to nothing, every definition has exactly one, and it is what the layout walks: the bound on the
number of ancestors, the size of the catalog, is never reached.

A message can be laid out exactly when no record key of its lineage is declared twice or is that of the
type.
-/

set_option autoImplicit false

namespace Tagwire

/-- The list leads from a definition without a parent, the root, down to the definition `d`, which is its
last. -/
inductive Lineage (definitions : List RecordDefinition) :
    RecordDefinition → List RecordDefinition → Prop
  | root {d : RecordDefinition} (hp : d.parent = none) : Lineage definitions d [d]
  | child {d p : RecordDefinition} {chain : List RecordDefinition} (hp : d.parent = some p.id)
      (hm : p ∈ definitions) (h : Lineage definitions p chain) : Lineage definitions d (chain ++ [d])

namespace Lineage

variable {definitions : List RecordDefinition} {d : RecordDefinition}
  {chain : List RecordDefinition}

/-- The last member of a lineage is its definition. -/
theorem eq_dropLast_append (h : Lineage definitions d chain) : chain = chain.dropLast ++ [d] := by
  cases h with
  | root hp => rfl
  | child hp hm h => simp

/-- The definition leads by references to every ancestor in its lineage. -/
theorem transGen_of_mem (h : Lineage definitions d chain) (hd : d ∈ definitions) :
    ∀ a ∈ chain.dropLast, Relation.TransGen (Refers definitions) d.id a.id := by
  induction h with
  | root hp => simp
  | @child d p chain hp hm h ih =>
    intro a ha
    have hstep : Refers definitions d.id p.id :=
      ⟨d, hd, rfl, (Catalog.mem_references_iff d p.id).mpr (.inl hp)⟩
    rw [List.dropLast_concat, h.eq_dropLast_append, List.mem_append, List.mem_singleton] at ha
    rcases ha with ha | rfl
    · exact .head hstep (ih hm a ha)
    · exact .single hstep

/-- The members of the lineage of a listed definition are listed. -/
theorem mem_definitions (h : Lineage definitions d chain) (hd : d ∈ definitions) :
    ∀ a ∈ chain, a ∈ definitions := by
  induction h with
  | root hp => simpa using hd
  | child hp hm h ih =>
    intro a ha
    rcases List.mem_append.mp ha with ha | ha
    · exact ih hm a ha
    · rw [List.mem_singleton] at ha
      exact ha ▸ hd

/-- No identity is twice in a lineage, where there are no cycles. -/
theorem ids_nodup (h : Lineage definitions d chain) (hd : d ∈ definitions)
    (hacyclic : IsAcyclic definitions) : (chain.map (·.id)).Nodup := by
  induction h with
  | root hp => simp
  | @child d p chain hp hm h ih =>
    rw [List.map_append, List.map_singleton]
    apply List.Nodup.append (ih hm) (by simp)
    rw [List.disjoint_singleton]
    intro hmem
    obtain ⟨a, ha, heq⟩ := List.mem_map.mp hmem
    have hleads := (Lineage.child hp hm h).transGen_of_mem hd a (by simpa using ha)
    exact hacyclic d.id (heq ▸ hleads)

/-- A lineage is no longer than the list of definitions, where there are no cycles. -/
theorem length_le (h : Lineage definitions d chain) (hd : d ∈ definitions)
    (hacyclic : IsAcyclic definitions) : chain.length ≤ definitions.length := by
  have hsub : chain.map (·.id) ⊆ definitions.map (·.id) := by
    intro id hid
    obtain ⟨a, ha, rfl⟩ := List.mem_map.mp hid
    exact List.mem_map_of_mem (h.mem_definitions hd a ha)
  simpa using (List.subperm_of_subset (h.ids_nodup hd hacyclic) hsub).length_le

/-- A definition has at most one lineage, where no identity is there twice. -/
theorem unique {other : List RecordDefinition} (hids : (definitions.map (·.id)).Nodup)
    (h : Lineage definitions d chain) (h' : Lineage definitions d other) : chain = other := by
  induction h generalizing other with
  | root hp =>
    cases h' with
    | root hp' => rfl
    | child hp' hm' h' => simp [hp] at hp'
  | @child d p chain hp hm h ih =>
    cases h' with
    | root hp' => simp [hp] at hp'
    | @child _ p' chain' hp' hm' h' =>
      have hpp : p = p' := by
        rw [hp, Option.some.injEq] at hp'
        exact List.inj_on_of_nodup_map hids hm hm' hp'
      subst hpp
      rw [ih h']

end Lineage

namespace Catalog

/-- A definition from which references are well-founded has a lineage. -/
theorem exists_lineage {catalog : Catalog}
    (hlisted : ∀ a b, Refers catalog.definitions a b → b ∈ catalog.ids) {id : RecordId}
    (hacc : Acc (fun b a => Refers catalog.definitions a b) id) :
    ∀ d ∈ catalog.definitions, d.id = id → ∃ chain, Lineage catalog.definitions d chain := by
  induction hacc with
  | intro id _ ih =>
    rintro d hd rfl
    cases hp : d.parent with
    | none => exact ⟨[d], .root hp⟩
    | some parent =>
      have hstep : Refers catalog.definitions d.id parent :=
        ⟨d, hd, rfl, (mem_references_iff d parent).mpr (.inl hp)⟩
      obtain ⟨e, he⟩ := exists_get?_of_mem_ids (hlisted _ _ hstep)
      obtain ⟨hmem, rfl⟩ := mem_of_get?_eq_some he
      have hp' : e.definition ∈ catalog.definitions := List.mem_map_of_mem hmem
      obtain ⟨chain, hchain⟩ := ih _ hstep e.definition hp' rfl
      exact ⟨chain ++ [d], .child hp hp' hchain⟩

/-- `ancestors` gives those of the lineage, the nearest first, as long as its bound allows for them. -/
theorem ancestors_eq {catalog : Catalog} (hids : catalog.ids.Nodup) {d : RecordDefinition}
    {chain : List RecordDefinition} (h : Lineage catalog.definitions d chain) (count : Nat)
    (hcount : chain.length ≤ count + 1) : catalog.ancestors count d = chain.dropLast.reverse := by
  induction h generalizing count with
  | root hp => cases count <;> simp [ancestors, hp]
  | @child d p chain hp hm h ih =>
    have hlast := h.eq_dropLast_append
    obtain ⟨e, he, rfl⟩ := List.mem_map.mp hm
    have hpos : 0 < chain.length := by
      rw [hlast]
      simp
    simp only [List.length_append, List.length_singleton] at hcount
    obtain ⟨count, rfl⟩ : ∃ c, count = c + 1 := ⟨count - 1, by omega⟩
    have hget : d.parent.bind catalog.get? = some e := by
      rw [hp, Option.bind_some, get?_eq_some_of_mem hids he]
    rw [ancestors, hget]
    show e.definition :: catalog.ancestors count e.definition = _
    rw [ih count (by omega), List.dropLast_concat]
    conv_rhs => rw [hlast]
    simp

/-- `Catalog.lineage` gives the lineage of a listed definition, where references are listed and well-founded. -/
theorem lineage_spec {catalog : Catalog} (hids : catalog.ids.Nodup)
    (hlisted : ∀ a b, Refers catalog.definitions a b → b ∈ catalog.ids)
    (hacc : ∀ id ∈ catalog.ids, Acc (fun b a => Refers catalog.definitions a b) id)
    {d : RecordDefinition} (hd : d ∈ catalog.definitions) :
    Lineage catalog.definitions d (catalog.lineage d) := by
  have hid : d.id ∈ catalog.ids := by
    rw [ids_eq_map_definitions]
    exact List.mem_map_of_mem hd
  obtain ⟨chain, hchain⟩ := exists_lineage hlisted (hacc _ hid) d hd rfl
  have hlength := hchain.length_le hd (isAcyclic_of_acc hacc)
  have hsize : catalog.definitions.length = catalog.length := by simp [Catalog.definitions]
  have hlast := hchain.eq_dropLast_append
  rw [lineage, ancestors_eq hids hchain _ (by omega), List.reverse_reverse, ← hlast]
  exact hchain

end Catalog

/-! ## Record keys of a lineage -/

/-- The record keys that the definitions of a lineage declare, those of the root first. -/
def declaredKeys (chain : List RecordDefinition) : List String :=
  chain.flatMap fun d => d.fields.map Prod.fst

namespace Declaration

/-- `ofLineage` declares the record keys of the lineage in order. -/
theorem map_name_ofLineage (chain : List RecordDefinition) :
    (ofLineage chain).map Declaration.name = declaredKeys chain := by
  unfold ofLineage declaredKeys
  rw [List.map_flatMap]
  simp [Function.comp_def]

/-- `checkDistinct` accepts declarations exactly if no record key is there twice, those declared before
included. -/
theorem checkDistinct_eq_ok_iff (declared : List (String × Declarer)) (ds : List Declaration) :
    checkDistinct declared ds = .ok () ↔
      (ds.map Declaration.name).Nodup ∧ ∀ d ∈ ds, d.name ∉ declared.map Prod.fst := by
  induction ds generalizing declared with
  | nil => simp [checkDistinct]
  | cons d rest ih =>
    unfold checkDistinct
    cases hf : declared.find? (fun e => e.1 == d.name) with
    | some first =>
      have hmem : d.name ∈ declared.map Prod.fst := by
        have hname : first.1 = d.name := by simpa using List.find?_some hf
        exact hname ▸ List.mem_map_of_mem (List.mem_of_find?_eq_some hf)
      simp only [reduceCtorEq, false_iff]
      exact fun h => h.2 d (by simp) hmem
    | none =>
      have hnot : d.name ∉ declared.map Prod.fst := by
        simp only [List.find?_eq_none, beq_iff_eq] at hf
        simp only [List.mem_map, not_exists, not_and]
        exact hf
      simp only [ih, List.map_cons, List.nodup_cons, List.mem_cons, forall_eq_or_imp, hnot,
        not_false_eq_true, true_and, not_or]
      constructor
      · rintro ⟨hn, hall⟩
        refine ⟨⟨fun hmem => ?_, hn⟩, fun d' hd' => (hall d' hd').2⟩
        obtain ⟨d', hd', heq⟩ := List.mem_map.mp hmem
        exact (hall d' hd').1 heq
      · rintro ⟨⟨hd, hn⟩, hall⟩
        exact ⟨hn, fun d' hd' => ⟨fun heq => hd (heq ▸ List.mem_map_of_mem hd'), hall d' hd'⟩⟩

end Declaration

namespace Catalog

/-- `declarations` gives those of the lineage, exactly if no record key among them is there twice nor is
`typeField`. -/
theorem declarations_eq_ok_iff (catalog : Catalog) (d : RecordDefinition)
    (declarations : List Declaration) :
    catalog.declarations d = .ok declarations ↔
      declarations = Declaration.ofLineage (catalog.lineage d) ∧
        (typeField :: declaredKeys (catalog.lineage d)).Nodup := by
  unfold Catalog.declarations
  rw [map_eq_ok_iff, List.nodup_cons, ← Declaration.map_name_ofLineage]
  constructor
  · rintro ⟨⟨⟩, hdistinct, rfl⟩
    obtain ⟨hn, hall⟩ := (Declaration.checkDistinct_eq_ok_iff _ _).mp hdistinct
    refine ⟨rfl, fun hmem => ?_, hn⟩
    obtain ⟨a, ha, heq⟩ := List.mem_map.mp hmem
    exact hall a ha (by simp [heq])
  · rintro ⟨rfl, hnot, hn⟩
    refine ⟨⟨⟩, (Declaration.checkDistinct_eq_ok_iff _ _).mpr ⟨hn, fun a ha hmem => ?_⟩, rfl⟩
    rw [List.map_singleton, List.mem_singleton] at hmem
    exact hnot (List.mem_map.mpr ⟨a, ha, hmem⟩)

end Catalog

end Tagwire
