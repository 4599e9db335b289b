import Tagwire.Proofs.References

/-!
# Cycles that a compilation reports

A list of identities is a reference cycle when it comes back to where it started without passing anything
twice, each identity on it being that of a definition that has the next one as its parent or in a field.
Over a checked catalog the search either reports one of these, or there is none in the list at all.
-/

set_option autoImplicit false

namespace Tagwire

/-- A definition with the identity `a` has `b` as its parent or as the record of a field. -/
def HasReference (definitions : List RecordDefinition) (a b : RecordId) : Prop :=
  ∃ d ∈ definitions, d.id = a ∧ (d.parent = some b ∨ ∃ f ∈ d.fields, f.2.kind = .record b)

/-- A list of at least two identities of definitions, the last of which is the first; each has a reference to
the next, and no other is there twice. -/
structure IsReferenceCycle (definitions : List RecordDefinition) (cycle : List RecordId) : Prop where
  two_le_length : 2 ≤ cycle.length
  closed : cycle.head? = cycle.getLast?
  nodup : cycle.dropLast.Nodup
  listed : ∀ id ∈ cycle, ∃ d ∈ definitions, d.id = id
  linked : cycle.IsChain (HasReference definitions)

/-- `HasReference` and `Refers` are the same relation. -/
theorem hasReference_iff_refers {definitions : List RecordDefinition} {a b : RecordId} :
    HasReference definitions a b ↔ Refers definitions a b := by
  unfold HasReference Refers
  simp only [Catalog.mem_references_iff]

/-- Every identity on a closed chain of references is that of a definition. -/
theorem listed_of_isChain {definitions : List RecordDefinition} {id : RecordId} {inner : List RecordId}
    (h : (id :: inner ++ [id]).IsChain (Refers definitions)) :
    ∀ a ∈ id :: inner ++ [id], ∃ d ∈ definitions, d.id = a := by
  -- Whatever has a reference is listed, and the last identity is the first.
  have hstart : ∀ (first last : RecordId) (inner : List RecordId),
      (first :: inner ++ [last]).IsChain (Refers definitions) →
        ∀ a ∈ first :: inner, ∃ d ∈ definitions, d.id = a := by
    intro first last inner
    induction inner generalizing first with
    | nil =>
      intro hchain a ha
      rw [List.mem_singleton] at ha
      subst ha
      obtain ⟨⟨d, hd, hid, -⟩, -⟩ := List.isChain_cons_cons.mp hchain
      exact ⟨d, hd, hid⟩
    | cons next inner ih =>
      intro hchain a ha
      obtain ⟨⟨d, hd, hid, -⟩, hrest⟩ := List.isChain_cons_cons.mp hchain
      rcases List.mem_cons.mp ha with rfl | ha
      · exact ⟨d, hd, hid⟩
      · exact ih next hrest a ha
  intro a ha
  rcases List.mem_append.mp ha with ha | ha
  · exact hstart id id inner h a ha
  · rw [List.mem_singleton] at ha
    exact hstart id id inner h a (by simp [ha])

/-- `IsReferenceCycle` and `IsCycle` are the same. -/
theorem isReferenceCycle_iff_isCycle {definitions : List RecordDefinition} {cycle : List RecordId} :
    IsReferenceCycle definitions cycle ↔ IsCycle definitions cycle := by
  constructor
  · intro h
    have hpos : 0 < cycle.length := Nat.lt_of_lt_of_le Nat.two_pos h.two_le_length
    obtain ⟨first, rest, rfl⟩ := List.exists_cons_of_length_pos hpos
    have hrest : rest ≠ [] := by
      rintro rfl
      have htwo := h.two_le_length
      simp at htwo
    have hlast : rest.getLast hrest = first := by
      have hclosed := h.closed
      rw [List.head?_cons, List.getLast?_cons, List.getLast?_eq_some_getLast hrest, Option.getD_some,
        Option.some.injEq] at hclosed
      exact hclosed.symm
    have hsplit : rest = rest.dropLast ++ [first] := by
      rw [← hlast]
      exact (List.dropLast_append_getLast hrest).symm
    refine ⟨first, rest.dropLast, ?_, ?_, h.linked.imp fun _ _ => hasReference_iff_refers.mp⟩
    · rw [List.cons_append, ← hsplit]
    · have hnodup := h.nodup
      rwa [List.dropLast_cons_of_ne_nil hrest] at hnodup
  · rintro ⟨id, inner, rfl, hnodup, hchain⟩
    exact
      { two_le_length := by simp
        closed := by rw [List.getLast?_concat, List.cons_append, List.head?_cons]
        nodup := by rwa [List.dropLast_concat]
        listed := listed_of_isChain hchain
        linked := hchain.imp fun _ _ => hasReference_iff_refers.mpr }

namespace Catalog

/-- An error of `checkAcyclic` is `cycle` with a reference cycle. -/
theorem exists_cycle_of_checkAcyclic {catalog : Catalog} (hids : catalog.ids.Nodup) {error : CompileError}
    (h : catalog.checkAcyclic = .error error) :
    ∃ cycle, error = .cycle cycle ∧ IsReferenceCycle catalog.definitions cycle := by
  have hall := isOutcome_searchAll hids
  unfold checkAcyclic at h
  split at h
  · cases h
  · rename_i cycle hsearch
    cases h
    rw [hsearch] at hall
    exact ⟨cycle, rfl, isReferenceCycle_iff_isCycle.mpr hall⟩

/-- Where `checkAcyclic` accepts a catalog with listed references, there is no reference cycle. -/
theorem not_isReferenceCycle_of_checkAcyclic {catalog : Catalog} (hids : catalog.ids.Nodup)
    (hlisted : ∀ a b, Refers catalog.definitions a b → b ∈ catalog.ids)
    (h : catalog.checkAcyclic = .ok ()) (cycle : List RecordId) :
    ¬ IsReferenceCycle catalog.definitions cycle := fun hcycle =>
  (isReferenceCycle_iff_isCycle.mp hcycle).not_isAcyclic ((checkAcyclic_eq_ok_iff hids hlisted).mp h)

/-- A catalog that `check` accepts refers to listed identities only. -/
theorem listed_of_check {catalog : Catalog} (h : catalog.check = .ok ()) :
    ∀ a b, Refers catalog.definitions a b → b ∈ catalog.ids := by
  rintro a b ⟨d, hd, rfl, hb⟩
  exact ((check_eq_ok_iff catalog).mp h d hd).2.1 b hb

/-- Over a catalog that `check` accepts, `checkAcyclic` succeeds and there is no reference cycle, or it reports
the error `cycle` with a list of identities that is one (`IsReferenceCycle`). -/
theorem checkAcyclic_cases {definitions : List RecordDefinition} {catalog : Catalog}
    (hcatalog : ofDefinitions definitions = .ok catalog) (hcheck : catalog.check = .ok ()) :
    (catalog.checkAcyclic = .ok () ∧ ∀ cycle, ¬ IsReferenceCycle definitions cycle) ∨
      ∃ cycle, catalog.checkAcyclic = .error (.cycle cycle) ∧ IsReferenceCycle definitions cycle := by
  obtain ⟨hl, rfl⟩ := isListing_of_ofDefinitions hcatalog
  cases hsearch : catalog.checkAcyclic with
  | ok =>
    exact .inl ⟨rfl, not_isReferenceCycle_of_checkAcyclic hl.ids_nodup (listed_of_check hcheck) hsearch⟩
  | error error =>
    obtain ⟨cycle, rfl, hcycle⟩ := exists_cycle_of_checkAcyclic hl.ids_nodup hsearch
    exact .inr ⟨cycle, rfl, hcycle⟩

/-- The definitions `Page`, `Square`, `Round` and `Mark`: a page has a square and a round shape, both of these a
mark, and the parent of a mark is the round shape. -/
def loopDefinitions : List RecordDefinition :=
  [{ id := "Page", fields := [("square", { kind := .record "Square" }), ("round", { kind := .record "Round" })] },
   { id := "Square", fields := [("mark", { kind := .record "Mark" })] },
   { id := "Round", fields := [("size", { kind := .scalar .int32 }), ("mark", { kind := .record "Mark" })] },
   { id := "Mark", parent := some "Round", fields := [("label", { kind := .scalar .string })] }]

/-- `checkAcyclic` starts at the page, passes the square, and reports `Mark`, `Round`, `Mark` without these two,
which lead to the cycle and are not on it. -/
theorem checkAcyclic_loopDefinitions : ∃ catalog, ofDefinitions loopDefinitions = .ok catalog ∧
    catalog.check = .ok () ∧ catalog.checkAcyclic = .error (.cycle ["Mark", "Round", "Mark"]) ∧
      IsReferenceCycle loopDefinitions ["Mark", "Round", "Mark"] := by
  have hlists : (ofDefinitions loopDefinitions).toOption.isSome = true := by decide +kernel
  have hpasses : ((ofDefinitions loopDefinitions).toOption.map fun catalog =>
      (catalog.check.toOption, catalog.checkAcyclic)) =
        some (some (), .error (.cycle ["Mark", "Round", "Mark"])) := by decide +kernel
  obtain ⟨catalog, hcatalog⟩ := Option.isSome_iff_exists.mp hlists
  rw [hcatalog, Option.map_some, Option.some.injEq, Prod.mk.injEq] at hpasses
  obtain ⟨hcheck, hsearch⟩ := hpasses
  have hcatalog := toOption_eq_some_iff.mp hcatalog
  have hcheck := toOption_eq_some_iff.mp hcheck
  refine ⟨catalog, hcatalog, hcheck, hsearch, ?_⟩
  rcases checkAcyclic_cases hcatalog hcheck with ⟨hok, -⟩ | ⟨cycle, hcycle, h⟩
  · rw [hsearch] at hok
    cases hok
  · rw [hsearch, Except.error.injEq, CompileError.cycle.injEq] at hcycle
    exact hcycle ▸ h

end Catalog

end Tagwire
