import Mathlib.Data.List.Nodup
import Tagwire.Compilation.Cycle
import Tagwire.Proofs.Except
import Tagwire.Proofs.Naming

/-!
# What listing and checking accept

Listing succeeds exactly when the identities are distinct, each has a message name and the message names
are distinct; the catalog then holds the definitions in their order.  Checking succeeds exactly when every
definition has fields, refers to listed definitions only and names its fields by record keys.
-/

set_option autoImplicit false

namespace Tagwire

namespace Catalog

/-- The identities of the listed definitions in order. -/
def ids (catalog : Catalog) : List RecordId := catalog.map (·.definition.id)

/-- The listed definitions in order. -/
def definitions (catalog : Catalog) : List RecordDefinition := catalog.map (·.definition)

/-- Every entry has the message name that is derived from its identity, and neither identities nor names are
there twice. -/
structure IsListing (catalog : Catalog) : Prop where
  derived : ∀ e ∈ catalog, e.name.text = MessageName.stem e.definition.id ++ messageSuffix
  ids_nodup : catalog.ids.Nodup
  names_nodup : (catalog.map (·.name)).Nodup

/-! ## Finding entries -/

/-- What `get?` finds under an identity is listed and has this identity. -/
theorem mem_of_get?_eq_some {catalog : Catalog} {id : RecordId} {e : CatalogEntry}
    (h : catalog.get? id = some e) : e ∈ catalog ∧ e.definition.id = id := by
  unfold get? at h
  exact ⟨List.mem_of_find?_eq_some h, by simpa using List.find?_some h⟩

/-- `get?` finds every listed entry under its identity. -/
theorem get?_eq_some_of_mem {catalog : Catalog} (hn : catalog.ids.Nodup) {e : CatalogEntry}
    (he : e ∈ catalog) : catalog.get? e.definition.id = some e := by
  induction catalog with
  | nil => simp at he
  | cons a rest ih =>
    simp only [ids, List.map_cons, List.nodup_cons] at hn
    unfold get?
    rcases List.mem_cons.mp he with rfl | he
    · simp
    · have hne : a.definition.id ≠ e.definition.id := by
        intro heq
        exact hn.1 (heq ▸ List.mem_map_of_mem (f := (·.definition.id)) he)
      rw [List.find?_cons_of_neg (by simpa using hne)]
      exact ih hn.2 he

/-- `contains` is membership among the listed identities. -/
theorem contains_iff_mem_ids (catalog : Catalog) (id : RecordId) :
    catalog.contains id = true ↔ id ∈ catalog.ids := by
  unfold contains get? ids
  simp only [List.find?_isSome, List.mem_map, beq_iff_eq]

/-- `get?` finds an entry under every listed identity. -/
theorem exists_get?_of_mem_ids {catalog : Catalog} {id : RecordId} (h : id ∈ catalog.ids) :
    ∃ e, catalog.get? id = some e :=
  Option.isSome_iff_exists.mp ((contains_iff_mem_ids catalog id).mpr h)

/-! ## Listing -/

/-- `add` lists a definition exactly if its identity is new, and its message name can be derived and is new. -/
theorem add_eq_ok_iff {catalog result : Catalog} {definition : RecordDefinition} :
    catalog.add definition = .ok result ↔
      definition.id ∉ catalog.ids ∧
        ∃ name, definition.messageName = .ok name ∧ name ∉ catalog.map (·.name) ∧
          result = catalog ++ [⟨definition, name⟩] := by
  unfold add
  by_cases hid : definition.id ∈ catalog.ids
  · simp [(contains_iff_mem_ids catalog definition.id).mpr hid, hid]
  · have hc : catalog.contains definition.id = false := by
      rw [← Bool.not_eq_true, contains_iff_mem_ids]
      exact hid
    simp only [hc, Bool.false_eq_true, if_false, hid, not_false_eq_true, true_and]
    cases hm : definition.messageName with
    | error e => simp
    | ok name =>
      simp only [Except.ok.injEq, exists_eq_left']
      cases hf : catalog.find? (fun e => e.name == name) with
      | some other =>
        have hmem := List.mem_of_find?_eq_some hf
        have heq : other.name = name := by simpa using List.find?_some hf
        simp only [reduceCtorEq, false_iff, not_and]
        intro hnot
        exact absurd (heq ▸ List.mem_map_of_mem (f := (·.name)) hmem) hnot
      | none =>
        have hnot : name ∉ catalog.map (·.name) := by
          simp only [List.find?_eq_none, beq_iff_eq] at hf
          simp only [List.mem_map, not_exists, not_and]
          exact hf
        simp [hnot, eq_comm]

/-- `add` keeps a catalog a listing. -/
theorem IsListing.add {catalog result : Catalog} {definition : RecordDefinition}
    (hl : catalog.IsListing) (h : catalog.add definition = .ok result) : result.IsListing := by
  obtain ⟨hid, name, hname, hnew, rfl⟩ := add_eq_ok_iff.mp h
  have hid' : ∀ a ∈ catalog, a.definition.id ≠ definition.id := fun a ha heq =>
    hid (heq ▸ List.mem_map_of_mem (f := (·.definition.id)) ha)
  have hnew' : ∀ a ∈ catalog, a.name ≠ name := fun a ha heq =>
    hnew (heq ▸ List.mem_map_of_mem (f := (·.name)) ha)
  refine ⟨?_, ?_, ?_⟩
  · intro e he
    rcases List.mem_append.mp he with he | he
    · exact hl.derived e he
    · rw [List.mem_singleton] at he
      subst he
      exact ofId_eq_ok_iff.mp hname
  · have hn := hl.ids_nodup
    unfold ids at hn ⊢
    simp only [List.map_append, List.map_cons, List.map_nil]
    apply List.Nodup.append hn (by simp)
    simpa [List.disjoint_singleton] using hid'
  · simp only [List.map_append, List.map_cons, List.map_nil]
    apply List.Nodup.append hl.names_nodup (by simp)
    simpa [List.disjoint_singleton] using hnew'

/-- A fold of `add` keeps a catalog a listing, and puts the definitions behind those that are there. -/
theorem IsListing.foldlM {definitions : List RecordDefinition} {catalog result : Catalog}
    (hl : catalog.IsListing) (h : definitions.foldlM Catalog.add catalog = .ok result) :
    result.IsListing ∧ result.definitions = catalog.definitions ++ definitions := by
  induction definitions generalizing catalog with
  | nil =>
    rw [foldlM_nil_eq_ok_iff] at h
    subst h
    exact ⟨hl, by simp⟩
  | cons d rest ih =>
    obtain ⟨next, hadd, hrest⟩ := foldlM_cons_eq_ok_iff.mp h
    obtain ⟨hresult, hdefs⟩ := ih (hl.add hadd) hrest
    obtain ⟨-, name, -, -, rfl⟩ := add_eq_ok_iff.mp hadd
    exact ⟨hresult, by simpa [Catalog.definitions] using hdefs⟩

/-- A fold of `add` goes through if every definition has a message name, and neither identities nor names are
there twice. -/
theorem exists_foldlM_add {definitions : List RecordDefinition} {catalog : Catalog}
    (hl : catalog.IsListing)
    (hderived : ∀ d ∈ definitions, ∃ name, d.messageName = .ok name)
    (hids : (catalog.ids ++ definitions.map (·.id)).Nodup)
    (hnames : (catalog.definitions.map (MessageName.stem ·.id) ++
      definitions.map (MessageName.stem ·.id)).Nodup) :
    ∃ result, definitions.foldlM Catalog.add catalog = .ok result := by
  induction definitions generalizing catalog with
  | nil => exact ⟨catalog, foldlM_nil_eq_ok_iff.mpr rfl⟩
  | cons d rest ih =>
    obtain ⟨name, hname⟩ := hderived d (by simp)
    have htext := ofId_eq_ok_iff.mp hname
    have hid : d.id ∉ catalog.ids := fun hmem =>
      (List.nodup_append.mp hids).2.2 _ hmem _ (by simp) rfl
    -- Two stems that give one message name are one stem, as the ending is the same.
    have hnew : name ∉ catalog.map (·.name) := by
      intro hmem
      obtain ⟨e, he, heq⟩ := List.mem_map.mp hmem
      have hstem : MessageName.stem e.definition.id = MessageName.stem d.id := by
        have := hl.derived e he
        rw [heq, htext] at this
        exact (String.append_left_inj messageSuffix).mp this.symm
      refine (List.nodup_append.mp hnames).2.2 _ (List.mem_map.mpr ⟨e.definition, ?_, rfl⟩) _
        (List.mem_map.mpr ⟨d, by simp, rfl⟩) hstem
      exact List.mem_map_of_mem (f := (·.definition)) he
    have hadd : catalog.add d = .ok (catalog ++ [⟨d, name⟩]) :=
      add_eq_ok_iff.mpr ⟨hid, name, hname, hnew, rfl⟩
    obtain ⟨result, hresult⟩ := ih (hl.add hadd)
      (fun d' hd' => hderived d' (by simp [hd']))
      (by simpa [ids] using hids) (by simpa [Catalog.definitions] using hnames)
    exact ⟨result, foldlM_cons_eq_ok_iff.mpr ⟨_, hadd, hresult⟩⟩

/-- The empty catalog is a listing. -/
theorem isListing_nil : IsListing [] := ⟨by simp, by simp [ids], by simp⟩

/-- `ofDefinitions` gives a listing of the definitions in their order. -/
theorem isListing_of_ofDefinitions {definitions : List RecordDefinition} {catalog : Catalog}
    (h : ofDefinitions definitions = .ok catalog) :
    catalog.IsListing ∧ catalog.definitions = definitions := by
  obtain ⟨hl, hdefs⟩ := isListing_nil.foldlM h
  exact ⟨hl, by simpa [Catalog.definitions] using hdefs⟩

/-- The identities of a catalog are those of its definitions, in order. -/
theorem ids_eq_map_definitions (catalog : Catalog) : catalog.ids = catalog.definitions.map (·.id) := by
  simp [ids, Catalog.definitions]

/-- No two definitions of a listing share their stem, since they would share their message name. -/
theorem IsListing.stems_nodup {catalog : Catalog} (hl : catalog.IsListing) :
    (catalog.definitions.map (MessageName.stem ·.id)).Nodup := by
  rw [Catalog.definitions, List.map_map]
  apply (List.nodup_map_iff_inj_on (List.Nodup.of_map _ hl.ids_nodup)).mpr
  intro a ha b hb hstem
  have htext : a.name.text = b.name.text := by
    rw [hl.derived a ha, hl.derived b hb]
    exact congrArg (· ++ messageSuffix) hstem
  have hname : a.name = b.name := by
    cases ha' : a.name
    cases hb' : b.name
    simp_all
  exact List.inj_on_of_nodup_map hl.names_nodup ha hb hname

/-- `ofDefinitions` lists the definitions exactly if their identities are distinct, their stems are distinct,
and each stem is an identifier of at most `maxStemBytes` bytes. -/
theorem exists_ofDefinitions_iff (definitions : List RecordDefinition) :
    (∃ catalog, ofDefinitions definitions = .ok catalog) ↔
      (definitions.map (·.id)).Nodup ∧
        (∀ d ∈ definitions, isIdentifier (MessageName.stem d.id) = true ∧
          (MessageName.stem d.id).utf8ByteSize ≤ maxStemBytes) ∧
        (definitions.map (MessageName.stem ·.id)).Nodup := by
  constructor
  · rintro ⟨catalog, h⟩
    obtain ⟨hl, rfl⟩ := isListing_of_ofDefinitions h
    refine ⟨ids_eq_map_definitions catalog ▸ hl.ids_nodup, ?_, hl.stems_nodup⟩
    intro d hd
    obtain ⟨e, he, rfl⟩ := List.mem_map.mp hd
    rw [← exists_ofId_eq_ok_iff]
    exact ⟨e.name, ofId_eq_ok_iff.mpr (hl.derived e he)⟩
  · rintro ⟨hids, hderived, hstems⟩
    refine exists_foldlM_add isListing_nil ?_ (by simpa [ids] using hids)
      (by simpa [Catalog.definitions] using hstems)
    intro d hd
    exact (exists_ofId_eq_ok_iff d.id).mpr (hderived d hd)

/-! ## Checking -/

/-- `fieldFault?` finds no fault exactly if the name is a record key and the record that the field refers to is
listed. -/
theorem fieldFault?_eq_none_iff (catalog : Catalog) (field : String × FieldDefinition) :
    catalog.fieldFault? field = none ↔
      isRecordKey field.1 = true ∧ ∀ target, field.2.kind = .record target → target ∈ catalog.ids := by
  unfold fieldFault?
  rw [← nameFault?_eq_none_iff]
  cases nameFault? field.1 with
  | some fault => simp
  | none =>
    cases field.2.kind with
    | scalar kind => simp
    | wellKnown kind => simp
    | record target => simp [contains_iff_mem_ids]

/-- `checkFields` accepts fields exactly if `fieldFault?` finds no fault with any of them. -/
theorem checkFields_eq_ok_iff (catalog : Catalog) (id : RecordId)
    (fields : List (String × FieldDefinition)) :
    catalog.checkFields id fields = .ok () ↔ ∀ f ∈ fields, catalog.fieldFault? f = none := by
  induction fields with
  | nil => simp [checkFields]
  | cons f rest ih =>
    unfold checkFields
    cases hf : catalog.fieldFault? f with
    | some fault => simp [hf]
    | none => simp [hf, ih]

/-- `references` has the parent of a definition and the records of its fields. -/
theorem mem_references_iff (definition : RecordDefinition) (id : RecordId) :
    id ∈ definition.references ↔
      definition.parent = some id ∨ ∃ f ∈ definition.fields, f.2.kind = .record id := by
  unfold RecordDefinition.references
  simp only [List.mem_append, Option.mem_toList, List.mem_filterMap]
  refine or_congr_right (exists_congr fun f => and_congr_right fun _ => ?_)
  cases f.2.kind <;> simp

/-- `checkDefinition` accepts a definition exactly if it has fields, refers to listed identities only, and names
its fields by record keys. -/
theorem checkDefinition_eq_ok_iff (catalog : Catalog) (definition : RecordDefinition) :
    catalog.checkDefinition definition = .ok () ↔
      definition.fields ≠ [] ∧ (∀ id ∈ definition.references, id ∈ catalog.ids) ∧
        ∀ f ∈ definition.fields, isRecordKey f.1 = true := by
  have hrefs : (∀ id ∈ definition.references, id ∈ catalog.ids) ↔
      (∀ parent, definition.parent = some parent → parent ∈ catalog.ids) ∧
        ∀ f ∈ definition.fields, ∀ target, f.2.kind = .record target → target ∈ catalog.ids := by
    simp only [mem_references_iff]
    constructor
    · intro h
      exact ⟨fun p hp => h p (.inl hp), fun f hf t ht => h t (.inr ⟨f, hf, ht⟩)⟩
    · rintro ⟨hp, hf⟩ id (h | ⟨f, hmem, ht⟩)
      · exact hp id h
      · exact hf f hmem id ht
  have hfields : catalog.checkFields definition.id definition.fields = .ok () ↔
      (∀ f ∈ definition.fields, ∀ target, f.2.kind = .record target → target ∈ catalog.ids) ∧
        ∀ f ∈ definition.fields, isRecordKey f.1 = true := by
    rw [checkFields_eq_ok_iff]
    simp only [fieldFault?_eq_none_iff]
    exact ⟨fun h => ⟨fun f hf => (h f hf).2, fun f hf => (h f hf).1⟩,
      fun h f hf => ⟨h.2 f hf, h.1 f hf⟩⟩
  rw [hrefs, and_assoc, ← hfields]
  unfold checkDefinition
  cases hempty : definition.fields.isEmpty with
  | true => simp [List.isEmpty_iff.mp hempty]
  | false =>
    have hne : definition.fields ≠ [] := by simpa using hempty
    cases hp : definition.parent with
    | none => simp [hne]
    | some parent =>
      by_cases hc : parent ∈ catalog.ids
      · simp [hne, (contains_iff_mem_ids catalog parent).mpr hc, hc]
      · have hfalse : catalog.contains parent = false := by
          rw [← Bool.not_eq_true, contains_iff_mem_ids]
          exact hc
        simp [hne, hfalse, hc]

/-- `check` accepts a catalog exactly if `checkDefinition` accepts every definition. -/
theorem check_eq_ok_iff (catalog : Catalog) :
    catalog.check = .ok () ↔
      ∀ d ∈ catalog.definitions, d.fields ≠ [] ∧ (∀ id ∈ d.references, id ∈ catalog.ids) ∧
        ∀ f ∈ d.fields, isRecordKey f.1 = true := by
  unfold check
  rw [forM_eq_ok_iff]
  simp only [checkDefinition_eq_ok_iff, Catalog.definitions, List.forall_mem_map]

end Catalog

end Tagwire
