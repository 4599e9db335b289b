import Tagwire.Proofs.Compilation.Cycles
import Tagwire.Proofs.Lineage

/-!
# The ends of the search and of the walk to the ancestors

The search for cycles and the walk to the ancestors of a definition are functions with a bound, on the depth of the
references that are followed and on the number of ancestors.  Here both are relations without one, so that a search or
a walk that does not end has no course at all.

The search always has one.  It enters no identity twice, since it enters one only if it is neither on the path nor
finished, and all that it has entered is finished behind it.  It nests at most once more than there are definitions,
since all that is on the path was entered, and the last reference may lead back into it.  The walk does not remember
what it passed.  It ends for the definitions among which the search found no cycle, because what it passes is their
lineage, in which nothing is repeated.  The functions go along with both to the end, so that it is never their bounds
that end them.
-/

set_option autoImplicit false

namespace Tagwire

namespace Catalog

/-! ## The search -/

/-- What a search comes to: `nesting`, how many levels deep it went, the identities that it entered in order,
and its outcome, the finished identities or the first cycle. -/
structure Course where
  nesting : Nat
  entered : List RecordId
  outcome : Except (List RecordId) (List RecordId)

/-- The search from some identities in turn, beneath a path and behind finished ones, takes a course.  It passes over an
identity that is finished or not listed, and ends with a cycle at one that is on the path.  It enters any other one and
searches from its references beneath it, which either breaks it off or leaves more finished ones to go on with. -/
inductive Searches (catalog : Catalog) : List RecordId → List RecordId → List RecordId → Course → Prop
  | nil {path finished : List RecordId} : Searches catalog path finished [] ⟨0, [], .ok finished⟩
  | passes {path finished rest : List RecordId} {id : RecordId} {course : Course}
      (hpass : id ∈ finished ∨ id ∉ path ∧ catalog.get? id = none) (hrest : Searches catalog path finished rest course) :
      Searches catalog path finished (id :: rest) ⟨max 1 course.nesting, course.entered, course.outcome⟩
  | closes {path finished rest : List RecordId} {id : RecordId} (hfin : id ∉ finished) (hpath : id ∈ path) :
      Searches catalog path finished (id :: rest) ⟨1, [], .error (cycleAt path id)⟩
  | breaks {path finished rest inside cycle : List RecordId} {id : RecordId} {e : CatalogEntry} {depth : Nat}
      (hfin : id ∉ finished) (hpath : id ∉ path) (hget : catalog.get? id = some e)
      (hinside : Searches catalog (id :: path) finished e.definition.references ⟨depth, inside, .error cycle⟩) :
      Searches catalog path finished (id :: rest) ⟨depth + 1, id :: inside, .error cycle⟩
  | enters {path finished rest inside done : List RecordId} {id : RecordId} {e : CatalogEntry} {depth : Nat}
      {course : Course} (hfin : id ∉ finished) (hpath : id ∉ path) (hget : catalog.get? id = some e)
      (hinside : Searches catalog (id :: path) finished e.definition.references ⟨depth, inside, .ok done⟩)
      (hrest : Searches catalog path (id :: done) rest course) :
      Searches catalog path finished (id :: rest)
        ⟨max (depth + 1) course.nesting, id :: inside ++ course.entered, course.outcome⟩

/-- Listed identities that a search may be beneath: none is on the path twice. -/
structure IsPath (catalog : Catalog) (path : List RecordId) : Prop where
  nodup : path.Nodup
  listed : path ⊆ catalog.ids

/-- What `Catalog.get?` finds under an identity is listed under it. -/
theorem mem_ids_of_get? {catalog : Catalog} {id : RecordId} {e : CatalogEntry} (h : catalog.get? id = some e) :
    id ∈ catalog.ids := by
  obtain ⟨hmem, rfl⟩ := mem_of_get?_eq_some h
  exact List.mem_map_of_mem (f := (·.definition.id)) hmem

namespace IsPath

variable {catalog : Catalog} {path : List RecordId}

/-- No search is beneath the empty path. -/
theorem nil : catalog.IsPath [] := ⟨List.nodup_nil, List.nil_subset _⟩

/-- A search that enters an identity is beneath the path with this identity at its front, if it was not on
it. -/
theorem cons (h : catalog.IsPath path) {id : RecordId} {e : CatalogEntry} (hpath : id ∉ path)
    (hget : catalog.get? id = some e) : catalog.IsPath (id :: path) :=
  ⟨List.nodup_cons.mpr ⟨hpath, h.nodup⟩, List.cons_subset.mpr ⟨mem_ids_of_get? hget, h.listed⟩⟩

/-- A path is no longer than the catalog, since it has each listed identity at most once. -/
theorem length_le (h : catalog.IsPath path) : path.length ≤ catalog.length := length_le_of_nodup h.nodup h.listed

end IsPath

/-- Beneath any path and from any identities, the search comes to an end. -/
theorem exists_searches {catalog : Catalog} (room : Nat) {path : List RecordId} (h : catalog.IsPath path)
    (hroom : catalog.length < room + path.length) (finished targets : List RecordId) :
    ∃ course, catalog.Searches path finished targets course := by
  -- Outside, the induction is on the room that is left beneath the path; inside, on what is left to search from.
  induction room generalizing path finished targets with
  | zero =>
    have hlength := h.length_le
    omega
  | succ room ih =>
    induction targets generalizing finished with
    | nil => exact ⟨_, .nil⟩
    | cons id rest ihrest =>
      by_cases hfin : id ∈ finished
      · obtain ⟨course, hrest⟩ := ihrest finished
        exact ⟨_, .passes (.inl hfin) hrest⟩
      by_cases hpath : id ∈ path
      · exact ⟨_, .closes hfin hpath⟩
      cases hget : catalog.get? id with
      | none =>
        obtain ⟨course, hrest⟩ := ihrest finished
        exact ⟨_, .passes (.inr ⟨hpath, hget⟩) hrest⟩
      | some e =>
        have hroom' : catalog.length < room + (id :: path).length := by
          rw [List.length_cons]
          omega
        obtain ⟨⟨depth, inside, outcome⟩, hinside⟩ := ih (h.cons hpath hget) hroom' finished e.definition.references
        cases outcome with
        | error cycle => exact ⟨_, .breaks hfin hpath hget hinside⟩
        | ok done =>
          obtain ⟨course, hrest⟩ := ihrest (id :: done)
          exact ⟨_, .enters hfin hpath hget hinside hrest⟩

/-- The identities that a search enters are listed, and none is entered twice or was on the path or finished before;
where the search goes through all of them are finished behind it, and so is what was before. -/
structure EntersNew (catalog : Catalog) (path finished entered : List RecordId)
    (outcome : Except (List RecordId) (List RecordId)) : Prop where
  nodup : entered.Nodup
  listed : entered ⊆ catalog.ids
  not_mem_path : ∀ id ∈ entered, id ∉ path
  not_mem_finished : ∀ id ∈ entered, id ∉ finished
  finishes : ∀ done, outcome = .ok done → entered ⊆ done ∧ finished ⊆ done

namespace EntersNew

variable {catalog : Catalog} {path finished : List RecordId} {outcome : Except (List RecordId) (List RecordId)}

/-- A search that enters nothing has done so, if what was finished before still is. -/
theorem nil (h : ∀ done, outcome = .ok done → finished ⊆ done) : EntersNew catalog path finished [] outcome where
  nodup := List.nodup_nil
  listed := List.nil_subset _
  not_mem_path := by simp
  not_mem_finished := by simp
  finishes := by
    intro done hdone
    exact ⟨List.nil_subset _, h done hdone⟩

/-- What is entered beneath a new identity is entered together with it. -/
theorem cons {id : RecordId} {inside : List RecordId} (hid : id ∈ catalog.ids) (hfin : id ∉ finished)
    (hpath : id ∉ path) (h : EntersNew catalog (id :: path) finished inside outcome) :
    EntersNew catalog path finished (id :: inside) (outcome.map (id :: ·)) where
  -- Beneath the identity it is on the path, and so it is not entered there again.
  nodup := by
    refine List.nodup_cons.mpr ⟨fun hmem => ?_, h.nodup⟩
    exact h.not_mem_path id hmem List.mem_cons_self
  listed := List.cons_subset.mpr ⟨hid, h.listed⟩
  not_mem_path := by
    rw [List.forall_mem_cons]
    refine ⟨hpath, fun a ha hmem => ?_⟩
    exact h.not_mem_path a ha (List.mem_cons_of_mem _ hmem)
  not_mem_finished := List.forall_mem_cons.mpr ⟨hfin, h.not_mem_finished⟩
  finishes := by
    intro done hdone
    obtain ⟨inner, hinner, rfl⟩ := map_eq_ok_iff.mp hdone
    obtain ⟨hentered, hfinished⟩ := h.finishes inner hinner
    exact ⟨List.cons_subset_cons id hentered, List.subset_cons_of_subset id hfinished⟩

/-- What is entered by one search and by another one behind it is entered by both together. -/
theorem append {first done entered : List RecordId} (hfirst : EntersNew catalog path finished first (.ok done))
    (h : EntersNew catalog path done entered outcome) :
    EntersNew catalog path finished (first ++ entered) outcome := by
  obtain ⟨hdone, hfinished⟩ := hfirst.finishes done rfl
  constructor
  -- What the first search entered is finished when the second one begins.
  case nodup =>
    apply hfirst.nodup.append h.nodup
    intro id hid hmem
    exact h.not_mem_finished id hmem (hdone hid)
  case listed => exact List.append_subset.mpr ⟨hfirst.listed, h.listed⟩
  case not_mem_path => exact List.forall_mem_append.mpr ⟨hfirst.not_mem_path, h.not_mem_path⟩
  case not_mem_finished =>
    refine List.forall_mem_append.mpr ⟨hfirst.not_mem_finished, fun id hid hmem => ?_⟩
    exact h.not_mem_finished id hid (hfinished hmem)
  case finishes =>
    intro last hlast
    obtain ⟨hentered, hkept⟩ := h.finishes last hlast
    exact ⟨List.append_subset.mpr ⟨List.Subset.trans hdone hkept, hentered⟩, List.Subset.trans hfinished hkept⟩

end EntersNew

section

variable {catalog : Catalog} {path finished : List RecordId} {bound : Nat} {id : RecordId}

/-- `search` gives back what was finished for an identity that is finished or not listed. -/
theorem search_passes (h : id ∈ finished ∨ id ∉ path ∧ catalog.get? id = none) :
    catalog.search bound path finished id = .ok finished := by
  unfold search
  by_cases hfin : id ∈ finished
  · rw [if_pos (by simpa using hfin)]
  · obtain ⟨hpath, hget⟩ := h.resolve_left hfin
    rw [if_neg (by simpa using hfin), if_neg (by simpa using hpath)]
    cases bound with
    | zero => rfl
    | succ bound => rw [hget]

/-- `search` gives the cycle that an identity on the path closes. -/
theorem search_closes (hfin : id ∉ finished) (hpath : id ∈ path) :
    catalog.search bound path finished id = .error (cycleAt path id) := by
  unfold search
  rw [if_neg (by simpa using hfin), if_pos (by simpa using hpath)]

/-- `search` enters a new identity and goes on from its references with one level less. -/
theorem search_enters {e : CatalogEntry} (hfin : id ∉ finished) (hpath : id ∉ path)
    (hget : catalog.get? id = some e) : catalog.search (bound + 1) path finished id =
      (e.definition.references.foldlM (catalog.search bound (id :: path)) finished).map (id :: ·) := by
  rw [search, if_neg (by simpa using hfin), if_neg (by simpa using hpath), hget]

end

namespace Searches

variable {catalog : Catalog} {path finished targets : List RecordId} {course : Course}

/-- The search enters only identities that are listed, not on the path and not finished, each once. -/
theorem entersNew (h : catalog.Searches path finished targets course) :
    EntersNew catalog path finished course.entered course.outcome := by
  induction h with
  | nil => exact .nil fun done hdone => by cases hdone; exact List.Subset.refl _
  | passes _ _ ih => exact ih
  | closes => exact .nil fun done hdone => by cases hdone
  | breaks hfin hpath hget _ ih => exact ih.cons (mem_ids_of_get? hget) hfin hpath
  | enters hfin hpath hget _ _ ih ihrest => exact (ih.cons (mem_ids_of_get? hget) hfin hpath).append ihrest

/-- The levels of a search and the length of the path that it is beneath add up to at most one more than the
length of the catalog. -/
theorem nesting_add_length_le (h : catalog.Searches path finished targets course) (hpath : catalog.IsPath path) :
    course.nesting + path.length ≤ catalog.length + 1 := by
  -- The deepest search is beneath a path that is no longer than the catalog.
  induction h with
  | nil =>
    have hlength := hpath.length_le
    dsimp only
    omega
  | passes _ _ ih =>
    have hlength := hpath.length_le
    have hrest := ih hpath
    dsimp only
    omega
  | closes =>
    have hlength := hpath.length_le
    dsimp only
    omega
  | breaks _ hnew hget _ ih =>
    have hinside := ih (hpath.cons hnew hget)
    rw [List.length_cons] at hinside
    dsimp only at hinside ⊢
    omega
  | enters _ hnew hget _ _ ih ihrest =>
    have hinside := ih (hpath.cons hnew hget)
    have hrest := ihrest hpath
    rw [List.length_cons] at hinside
    dsimp only at hinside ⊢
    omega

/-- `search` with a bound of at least the levels that the unbounded search goes down comes to the same
outcome. -/
theorem foldlM_search_eq (h : catalog.Searches path finished targets course) (bound : Nat)
    (hbound : course.nesting ≤ bound) : targets.foldlM (catalog.search bound path) finished = course.outcome := by
  induction h generalizing bound with
  | nil => rfl
  | passes hpass _ ih =>
    rw [List.foldlM_cons, search_passes hpass]
    exact ih bound (Nat.max_le.mp hbound).2
  | closes hfin hpath =>
    rw [List.foldlM_cons, search_closes hfin hpath]
    rfl
  | breaks hfin hpath hget _ ih =>
    cases bound with
    | zero => exact absurd hbound (Nat.not_succ_le_zero _)
    | succ bound =>
      rw [List.foldlM_cons, search_enters hfin hpath hget, ih bound (Nat.le_of_succ_le_succ hbound)]
      rfl
  | enters hfin hpath hget _ _ ih ihrest =>
    have hinside := (Nat.max_le.mp hbound).1
    cases bound with
    | zero => exact absurd hinside (Nat.not_succ_le_zero _)
    | succ bound =>
      rw [List.foldlM_cons, search_enters hfin hpath hget, ih bound (Nat.le_of_succ_le_succ hinside)]
      exact ihrest (bound + 1) (Nat.max_le.mp hbound).2

/-- `checkAcyclic` gives what the unbounded search from all listed identities comes to. -/
theorem checkAcyclic_eq {course : Course} (h : catalog.Searches [] [] catalog.ids course) :
    catalog.checkAcyclic = (course.outcome.mapError .cycle).map fun _ => () := by
  have hnesting := h.nesting_add_length_le .nil
  have hsearch := h.foldlM_search_eq (catalog.length + 1) hnesting
  rw [ids, List.foldlM_map] at hsearch
  rw [checkAcyclic, hsearch]
  cases course.outcome <;> rfl

end Searches

/-! ## The walk to the ancestors -/

/-- The walk from a definition to its parent, and on from there, passes some definitions, the nearest first, and ends
where there is no parent to go to. -/
inductive Ascends (catalog : Catalog) : RecordDefinition → List RecordDefinition → Prop
  | stops {d : RecordDefinition} (h : d.parent.bind catalog.get? = none) : Ascends catalog d []
  | climbs {d : RecordDefinition} {e : CatalogEntry} {chain : List RecordDefinition}
      (h : d.parent.bind catalog.get? = some e) (hrest : Ascends catalog e.definition chain) :
      Ascends catalog d (e.definition :: chain)

/-- There is at most one walk from a definition. -/
theorem Ascends.unique {catalog : Catalog} {d : RecordDefinition} {chain other : List RecordDefinition}
    (h : catalog.Ascends d chain) (h' : catalog.Ascends d other) : chain = other := by
  induction h generalizing other with
  | stops hstop =>
    cases h' with
    | stops _ => rfl
    | climbs hclimb _ =>
      rw [hstop] at hclimb
      cases hclimb
  | climbs hclimb _ ih =>
    cases h' with
    | stops hstop =>
      rw [hclimb] at hstop
      cases hstop
    | climbs hclimb' hrest' =>
      rw [hclimb, Option.some.injEq] at hclimb'
      subst hclimb'
      rw [ih hrest']

/-- `ancestors` with a bound of at least the length of the walk gives what the walk passes. -/
theorem Ascends.ancestors_eq {catalog : Catalog} {d : RecordDefinition} {chain : List RecordDefinition}
    (h : catalog.Ascends d chain) (bound : Nat) (hbound : chain.length ≤ bound) :
    catalog.ancestors bound d = chain := by
  induction h generalizing bound with
  | stops hstop => cases bound <;> simp [ancestors, hstop]
  | climbs hclimb _ ih =>
    cases bound with
    | zero => exact absurd hbound (Nat.not_succ_le_zero _)
    | succ bound => simp [ancestors, hclimb, ih bound (Nat.le_of_succ_le_succ hbound)]

/-- The walk from a definition passes its lineage upwards. -/
theorem ascends_of_lineage {catalog : Catalog} (hids : catalog.ids.Nodup) {d : RecordDefinition}
    {lineage : List RecordDefinition} (h : Lineage catalog.definitions d lineage) :
    catalog.Ascends d lineage.dropLast.reverse := by
  induction h with
  | root hp => exact .stops (by rw [hp, Option.bind_none])
  | @child d p lineage hp hm h ih =>
    obtain ⟨e, he, rfl⟩ := List.mem_map.mp hm
    have hget : d.parent.bind catalog.get? = some e := by
      rw [hp, Option.bind_some, get?_eq_some_of_mem hids he]
    have hsplit : lineage.reverse = e.definition :: lineage.dropLast.reverse := by
      conv_lhs => rw [h.eq_dropLast_append]
      simp
    rw [List.dropLast_concat, hsplit]
    exact .climbs hget ih

/-- The lineage of a definition is what the walk from it passes, read downwards, and itself. -/
theorem Ascends.lineage_eq {catalog : Catalog} (hids : catalog.ids.Nodup) {d : RecordDefinition}
    {chain : List RecordDefinition} (h : catalog.Ascends d chain)
    (hlineage : Lineage catalog.definitions d (catalog.lineage d)) : catalog.lineage d = chain.reverse ++ [d] := by
  rw [h.unique (ascends_of_lineage hids hlineage), List.reverse_reverse]
  exact hlineage.eq_dropLast_append

/-- The walk passes definitions that are apart from each other and from the one it starts from, and so fewer than there
are, if that one has a lineage and no definition leads back to itself. -/
theorem Ascends.apart {catalog : Catalog} (hids : catalog.ids.Nodup) (hacyclic : IsAcyclic catalog.definitions)
    {d : RecordDefinition} (hd : d ∈ catalog.definitions) {chain : List RecordDefinition} (h : catalog.Ascends d chain)
    (hlineage : Lineage catalog.definitions d (catalog.lineage d)) :
    chain.length < catalog.definitions.length ∧ (chain.map (·.id)).Nodup ∧ d.id ∉ chain.map (·.id) := by
  have hle := hlineage.length_le hd hacyclic
  have hnodup := hlineage.ids_nodup hd hacyclic
  rw [h.lineage_eq hids hlineage, List.length_append, List.length_reverse, List.length_singleton] at hle
  rw [h.lineage_eq hids hlineage, List.map_append, List.map_reverse, List.map_singleton] at hnodup
  refine ⟨hle, List.nodup_reverse.mp hnodup.of_append_left, fun hmem => ?_⟩
  exact List.disjoint_of_nodup_append hnodup (List.mem_reverse.mpr hmem) (List.mem_singleton_self _)

/-- The fields of the message of a definition beneath given ancestors, the nearest first, or the record key that
is declared twice. -/
def layoutBeneath (catalog : Catalog) (chain : List RecordDefinition) (d : RecordDefinition) :
    Except CompileError (List RegisteredField) :=
  let declarations := Declaration.ofLineage (chain.reverse ++ [d])
  (Declaration.checkDistinct [(typeField, .implicitTag)] declarations).map fun _ => catalog.layout declarations

/-- Laying out a definition beneath all that the unbounded walk from it passes gives `result`. -/
def LaysOut (catalog : Catalog) (d : RecordDefinition) (result : Except CompileError (List RegisteredField)) : Prop :=
  ∃ chain, catalog.Ascends d chain ∧ result = catalog.layoutBeneath chain d

/-- Where the walk ends, `LaysOut` gives what `declarations` and `layout` compute. -/
theorem laysOut_iff {catalog : Catalog} {d : RecordDefinition} {chain : List RecordDefinition}
    (h : catalog.Ascends d chain) (hlineage : catalog.lineage d = chain.reverse ++ [d])
    {result : Except CompileError (List RegisteredField)} :
    catalog.LaysOut d result ↔ result = (catalog.declarations d).map catalog.layout := by
  have hlayout : catalog.layoutBeneath chain d = (catalog.declarations d).map catalog.layout := by
    rw [layoutBeneath, declarations, hlineage]
    cases Declaration.checkDistinct [(typeField, .implicitTag)] (Declaration.ofLineage (chain.reverse ++ [d])) <;> rfl
  rw [← hlayout]
  constructor
  · rintro ⟨other, hother, rfl⟩
    rw [hother.unique h]
  · rintro rfl
    exact ⟨chain, h, rfl⟩

/-- Over a catalog that `check` accepts, the search for cycles with no bound on its depth (`Searches`) comes to
an end.  It nests at most `definitions.length + 1` levels, enters each identity at most once, and is what the
bounded `search` and `checkAcyclic` compute.  If `checkAcyclic` finds no cycle, then the walk from each
definition to its ancestors with no bound (`Ascends`) comes to an end too, after fewer than `definitions.length`
steps.  It passes none twice and does not return to where it started, so that it is what `ancestors` computes,
and the definition is laid out. -/
theorem searches_and_ascends_of_check {definitions : List RecordDefinition} {catalog : Catalog}
    (hcatalog : ofDefinitions definitions = .ok catalog) (hcheck : catalog.check = .ok ()) :
    (∃ course, catalog.Searches [] [] (definitions.map (·.id)) course) ∧
    (∀ course, catalog.Searches [] [] (definitions.map (·.id)) course →
      course.nesting ≤ definitions.length + 1 ∧ course.entered.Nodup ∧ course.entered ⊆ definitions.map (·.id) ∧
      (∀ bound, course.nesting ≤ bound →
        (definitions.map (·.id)).foldlM (catalog.search bound []) [] = course.outcome) ∧
      catalog.checkAcyclic = (course.outcome.mapError .cycle).map fun _ => ()) ∧
    (catalog.checkAcyclic = .ok () → ∀ d ∈ definitions,
      (∃ chain, catalog.Ascends d chain) ∧
      (∀ chain, catalog.Ascends d chain → chain.length < definitions.length ∧ (chain.map (·.id)).Nodup ∧
        d.id ∉ chain.map (·.id) ∧ ∀ bound, chain.length ≤ bound → catalog.ancestors bound d = chain) ∧
      ∀ result, catalog.LaysOut d result ↔ result = (catalog.declarations d).map catalog.layout) := by
  obtain ⟨hl, rfl⟩ := isListing_of_ofDefinitions hcatalog
  have hlength : catalog.definitions.length = catalog.length := by simp [Catalog.definitions]
  rw [← ids_eq_map_definitions]
  refine ⟨exists_searches (catalog.length + 1) .nil (by simp) _ _, ?_, ?_⟩
  · intro course h
    have hnesting := h.nesting_add_length_le .nil
    exact ⟨hlength ▸ hnesting, h.entersNew.nodup, h.entersNew.listed, h.foldlM_search_eq, h.checkAcyclic_eq⟩
  · intro hsearch d hd
    have hlisted := listed_of_check hcheck
    have hacyclic := (checkAcyclic_eq_ok_iff hl.ids_nodup hlisted).mp hsearch
    have hlineage := lineage_spec hl.ids_nodup hlisted (acc_of_isAcyclic hl.ids_nodup hlisted hacyclic) hd
    have hascends := ascends_of_lineage hl.ids_nodup hlineage
    refine ⟨⟨_, hascends⟩, fun chain h => ?_, fun result => ?_⟩
    · obtain ⟨hlt, hnodup, hstart⟩ := h.apart hl.ids_nodup hacyclic hd hlineage
      exact ⟨hlt, hnodup, hstart, h.ancestors_eq⟩
    · exact laysOut_iff hascends (hascends.lineage_eq hl.ids_nodup hlineage)

/-- The catalog of `loopDefinitions`. -/
def loopCatalog : Catalog :=
  [⟨loopDefinitions[0], "PageMessage", by decide⟩, ⟨loopDefinitions[1], "SquareMessage", by decide⟩,
   ⟨loopDefinitions[2], "RoundMessage", by decide⟩, ⟨loopDefinitions[3], "MarkMessage", by decide⟩]

/-- The search over `loopCatalog` enters all four identities, five levels deep, before it comes back to the
mark. -/
theorem searches_loopCatalog : loopCatalog.Searches [] [] (loopDefinitions.map (·.id))
    ⟨5, ["Page", "Square", "Mark", "Round"], .error ["Mark", "Round", "Mark"]⟩ :=
  .breaks (by decide) (by decide) rfl <| .breaks (by decide) (by decide) rfl <|
    .breaks (by decide) (by decide) rfl <| .breaks (by decide) (by decide) rfl <| .closes (by decide) (by decide)

/-- The definitions `Tower`, `House` and `Building`, each the parent of the one before it. -/
def towerDefinitions : List RecordDefinition :=
  [{ id := "Tower", parent := some "House", fields := [("bells", { kind := .scalar .int32, repeated := true })] },
   { id := "House", parent := some "Building", fields := [("rooms", { kind := .scalar .int32 })] },
   { id := "Building", fields := [("height", { kind := .scalar .double })] }]

/-- The catalog of `towerDefinitions`. -/
def towerCatalog : Catalog :=
  [⟨towerDefinitions[0], "TowerMessage", by decide⟩, ⟨towerDefinitions[1], "HouseMessage", by decide⟩,
   ⟨towerDefinitions[2], "BuildingMessage", by decide⟩]

/-- The walk from the tower passes the house and the building. -/
theorem ascends_towerCatalog : towerCatalog.Ascends towerDefinitions[0] [towerDefinitions[1], towerDefinitions[2]] :=
  .climbs (e := towerCatalog[1]) rfl (.climbs (e := towerCatalog[2]) rfl (.stops rfl))

/-- Both bounds are reached: the search over `loopDefinitions` nests 5 levels for its 4 definitions, and the
walk from the first of the 3 definitions of `towerDefinitions` has 2 steps. -/
theorem searches_and_ascends_towerDefinitions :
    (ofDefinitions loopDefinitions = .ok loopCatalog ∧ loopCatalog.check = .ok () ∧
      loopDefinitions.length + 1 = 5 ∧ 5 ≤ loopDefinitions.length + 1 ∧
      loopCatalog.checkAcyclic = .error (.cycle ["Mark", "Round", "Mark"])) ∧
    ofDefinitions towerDefinitions = .ok towerCatalog ∧ towerCatalog.check = .ok () ∧
      towerCatalog.checkAcyclic = .ok () ∧ towerDefinitions[0] ∈ towerDefinitions ∧
      [towerDefinitions[1], towerDefinitions[2]].length < towerDefinitions.length ∧
      towerCatalog.ancestors 2 towerDefinitions[0] = [towerDefinitions[1], towerDefinitions[2]] ∧
      towerCatalog.LaysOut towerDefinitions[0]
        ((towerCatalog.declarations towerDefinitions[0]).map towerCatalog.layout) := by
  have hloop : ofDefinitions loopDefinitions = .ok loopCatalog := by decide +kernel
  have hloopCheck : loopCatalog.check = .ok () := by decide +kernel
  have htower : ofDefinitions towerDefinitions = .ok towerCatalog := by decide +kernel
  have htowerCheck : towerCatalog.check = .ok () := by decide +kernel
  have hacyclic : towerCatalog.checkAcyclic = .ok () := by decide +kernel
  have hmem : towerDefinitions[0] ∈ towerDefinitions := by decide
  obtain ⟨-, hcourse, -⟩ := searches_and_ascends_of_check hloop hloopCheck
  obtain ⟨-, -, hwalks⟩ := searches_and_ascends_of_check htower htowerCheck
  obtain ⟨hnesting, -, -, -, hsearch⟩ := hcourse _ searches_loopCatalog
  obtain ⟨-, hchain, hlayout⟩ := hwalks hacyclic _ hmem
  obtain ⟨hlength, -, -, hancestors⟩ := hchain _ ascends_towerCatalog
  exact ⟨⟨hloop, hloopCheck, rfl, hnesting, hsearch⟩, htower, htowerCheck, hacyclic, hmem, hlength,
    hancestors 2 (Nat.le_refl 2), (hlayout _).mpr rfl⟩

end Catalog

end Tagwire
