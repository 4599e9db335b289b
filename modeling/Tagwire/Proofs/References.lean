import Mathlib.Data.List.Chain
import Mathlib.Data.List.Perm.Subperm
import Mathlib.Logic.Relation
import Tagwire.Proofs.Catalog

/-!
# The references among definitions

One definition refers to another as its parent or as a record that one of its fields holds.  The search
finishes without an error exactly when no definition leads back to itself, and an error of it names a
cycle.

The search is carried by two invariants.  The path leads from its outermost member to the identity that is
searched, without repeating one, so that its length is bounded by the catalog and the depth never runs
out.  The finished identities are settled: each refers only to ones that were finished before it, so that
no cycle goes through them.
-/

set_option autoImplicit false

namespace Tagwire

/-- The definition with the identity `a` refers to the identity `b`, as its parent or as the record of a
field. -/
def Refers (definitions : List RecordDefinition) (a b : RecordId) : Prop :=
  ∃ d ∈ definitions, d.id = a ∧ b ∈ d.references

/-- No identity leads back to itself by one or more references. -/
def IsAcyclic (definitions : List RecordDefinition) : Prop :=
  ∀ id, ¬ Relation.TransGen (Refers definitions) id id

/-- Identities each of which refers to the next; the last is the first, and no other is there twice. -/
def IsCycle (definitions : List RecordDefinition) (cycle : List RecordId) : Prop :=
  ∃ id inner, cycle = id :: inner ++ [id] ∧ (id :: inner).Nodup ∧
    cycle.IsChain (Refers definitions)

/-- The first identity of a chain of references leads to its last. -/
theorem transGen_of_isChain {definitions : List RecordDefinition} {a b : RecordId}
    {inner : List RecordId} (h : (a :: inner ++ [b]).IsChain (Refers definitions)) :
    Relation.TransGen (Refers definitions) a b := by
  induction inner generalizing a with
  | nil => exact .single (by simpa using h)
  | cons c rest ih =>
    rw [List.cons_append, List.cons_append, List.isChain_cons_cons] at h
    exact .head h.1 (ih h.2)

/-- Where there is a cycle, an identity leads back to itself. -/
theorem IsCycle.not_isAcyclic {definitions : List RecordDefinition} {cycle : List RecordId}
    (h : IsCycle definitions cycle) : ¬ IsAcyclic definitions := by
  obtain ⟨id, inner, rfl, -, hchain⟩ := h
  exact fun hacyclic => hacyclic id (transGen_of_isChain hchain)

namespace Catalog

/-- Each of the finished identities refers, among listed ones, only to those that were finished before it. -/
def IsSettled (catalog : Catalog) : List RecordId → Prop
  | [] => True
  | id :: rest =>
    (∀ target, Refers catalog.definitions id target → target ∈ catalog.ids → target ∈ rest) ∧
      IsSettled catalog rest

/-- What `search` at one identity needs: a path of references down to it through distinct listed identities,
finished ones that are settled, and depth enough for those that are left. -/
structure IsSearching (catalog : Catalog) (depth : Nat) (path finished : List RecordId)
    (id : RecordId) : Prop where
  leads : (id :: path).IsChain fun b a => Refers catalog.definitions a b
  nodup : path.Nodup
  listed : ∀ p ∈ path, p ∈ catalog.ids
  bounded : catalog.length < depth + path.length
  settled : catalog.IsSettled finished

/-- What `search` has to give: further settled identities, with those that were wanted among them, or a
cycle. -/
def IsOutcome (catalog : Catalog) (finished wanted : List RecordId) :
    Except (List RecordId) (List RecordId) → Prop
  | .ok done =>
    catalog.IsSettled done ∧ finished ⊆ done ∧ ∀ id ∈ wanted, id ∈ catalog.ids → id ∈ done
  | .error cycle => IsCycle catalog.definitions cycle

/-- A path of distinct listed identities is no longer than the catalog. -/
theorem length_le_of_nodup {catalog : Catalog} {path : List RecordId} (hn : path.Nodup)
    (hl : ∀ p ∈ path, p ∈ catalog.ids) : path.length ≤ catalog.length := by
  have := (List.subperm_of_subset hn hl).length_le
  simpa [ids] using this

/-- `cycleAt` gives a cycle for a reference back into the path. -/
theorem isCycle_cycleAt {catalog : Catalog} {path : List RecordId} {id : RecordId}
    (hchain : (id :: path).IsChain fun b a => Refers catalog.definitions a b) (hn : path.Nodup)
    (hmem : id ∈ path) : IsCycle catalog.definitions (cycleAt path id) := by
  obtain ⟨inside, outside, rfl, hnot⟩ := List.eq_append_cons_of_mem hmem
  have htake : (inside ++ id :: outside).takeWhile (· != id) = inside := by
    rw [List.takeWhile_append_of_pos]
    · simp
    · intro x hx
      simpa using fun heq : x = id => hnot (heq ▸ hx)
  refine ⟨id, inside.reverse, ?_, ?_, ?_⟩
  · rw [cycleAt, htake]
  · rw [List.nodup_cons, List.mem_reverse, List.nodup_reverse]
    exact ⟨hnot, hn.of_append_left⟩
  · have hprefix : (id :: inside ++ [id]).IsChain fun b a => Refers catalog.definitions a b := by
      have hsplit : id :: (inside ++ id :: outside) = (id :: inside ++ [id]) ++ outside := by simp
      rw [hsplit] at hchain
      exact hchain.left_of_append
    rw [cycleAt, htake]
    have hreverse := List.isChain_reverse.mpr hprefix
    simpa using hreverse

/-- One more identity that refers to settled ones only is settled. -/
theorem isSettled_cons {catalog : Catalog} {id : RecordId} {e : CatalogEntry} {done : List RecordId}
    (hids : catalog.ids.Nodup) (he : catalog.get? id = some e) (hdone : catalog.IsSettled done)
    (hrefs : ∀ t ∈ e.definition.references, t ∈ catalog.ids → t ∈ done) :
    catalog.IsSettled (id :: done) := by
  refine ⟨?_, hdone⟩
  rintro target ⟨d, hd, rfl, ht⟩ hlisted
  obtain ⟨e', he', rfl⟩ := List.mem_map.mp hd
  rw [get?_eq_some_of_mem hids he', Option.some.injEq] at he
  exact hrefs target (he ▸ ht) hlisted

/-- A fold of searches from several identities gives what a search for all of them has to give. -/
theorem isOutcome_foldlM {catalog : Catalog} (search : List RecordId → RecordId →
      Except (List RecordId) (List RecordId)) (targets : List RecordId)
    (hsearch : ∀ done, catalog.IsSettled done → ∀ t ∈ targets,
      catalog.IsOutcome done [t] (search done t))
    {finished : List RecordId} (hset : catalog.IsSettled finished) :
    catalog.IsOutcome finished targets (targets.foldlM search finished) := by
  induction targets generalizing finished with
  | nil => exact ⟨hset, List.Subset.refl _, by simp⟩
  | cons t rest ih =>
    rw [List.foldlM_cons]
    have hfirst := hsearch finished hset t (by simp)
    cases hs : search finished t with
    | error cycle =>
      rw [hs] at hfirst
      exact hfirst
    | ok done =>
      rw [hs] at hfirst
      obtain ⟨hdone, hsub, hmem⟩ := hfirst
      have hrest := ih (fun done hdone t' ht' => hsearch done hdone t' (by simp [ht'])) hdone
      show catalog.IsOutcome finished (t :: rest) (rest.foldlM search done)
      cases hr : rest.foldlM search done with
      | error cycle =>
        rw [hr] at hrest
        exact hrest
      | ok result =>
        rw [hr] at hrest
        obtain ⟨hresult, hsub', hmem'⟩ := hrest
        refine ⟨hresult, fun x hx => hsub' (hsub hx), fun id hid hlisted => ?_⟩
        rcases List.mem_cons.mp hid with rfl | hid
        · exact hsub' (hmem id (by simp) hlisted)
        · exact hmem' id hid hlisted

/-- `search` settles the identity that it starts from, or finds a cycle. -/
theorem isOutcome_search {catalog : Catalog} (hids : catalog.ids.Nodup) (depth : Nat)
    {path finished : List RecordId} {id : RecordId}
    (h : catalog.IsSearching depth path finished id) :
    catalog.IsOutcome finished [id] (catalog.search depth path finished id) := by
  induction depth generalizing path finished id with
  | zero =>
    -- The path would be longer than the catalog.
    have := length_le_of_nodup h.nodup h.listed
    have := h.bounded
    omega
  | succ depth ih =>
    unfold search
    by_cases hfin : id ∈ finished
    · rw [if_pos (by simpa using hfin)]
      exact ⟨h.settled, List.Subset.refl _, by simpa using fun _ => hfin⟩
    · rw [if_neg (by simpa using hfin)]
      by_cases hpath : id ∈ path
      · rw [if_pos (by simpa using hpath)]
        exact isCycle_cycleAt h.leads h.nodup hpath
      · rw [if_neg (by simpa using hpath)]
        cases he : catalog.get? id with
        | none =>
          have hnot : id ∉ catalog.ids := by
            intro hmem
            obtain ⟨e, he'⟩ := exists_get?_of_mem_ids hmem
            rw [he] at he'
            cases he'
          exact ⟨h.settled, List.Subset.refl _, by simpa using fun hmem => absurd hmem hnot⟩
        | some e =>
          obtain ⟨hmem, hid⟩ := mem_of_get?_eq_some he
          have hfold := isOutcome_foldlM (catalog.search depth (id :: path))
            e.definition.references (fun done hdone t ht => ih
              { leads := List.isChain_cons_cons.mpr
                  ⟨⟨e.definition, List.mem_map_of_mem hmem, hid, ht⟩, h.leads⟩
                nodup := List.nodup_cons.mpr ⟨hpath, h.nodup⟩
                listed := fun p hp => by
                  rcases List.mem_cons.mp hp with rfl | hp
                  · exact hid ▸ List.mem_map_of_mem (f := (·.definition.id)) hmem
                  · exact h.listed p hp
                bounded := by
                  have := h.bounded
                  simp only [List.length_cons]
                  omega
                settled := hdone }) h.settled
          dsimp only
          cases hf : e.definition.references.foldlM
              (fun done target => catalog.search depth (id :: path) done target) finished with
          | error cycle =>
            rw [hf] at hfold
            exact hfold
          | ok done =>
            rw [hf] at hfold
            obtain ⟨hdone, hsub, hrefs⟩ := hfold
            exact ⟨isSettled_cons hids he hdone hrefs, fun x hx => List.mem_cons_of_mem _ (hsub hx),
              by simp⟩

/-- References from a settled identity are well-founded. -/
theorem acc_of_isSettled {catalog : Catalog}
    (hlisted : ∀ a b, Refers catalog.definitions a b → b ∈ catalog.ids) {settled : List RecordId}
    (h : catalog.IsSettled settled) :
    ∀ id ∈ settled, Acc (fun b a => Refers catalog.definitions a b) id := by
  induction settled with
  | nil => simp
  | cons id rest ih =>
    intro a ha
    rcases List.mem_cons.mp ha with rfl | ha
    · exact ⟨a, fun b hb => ih h.2 b (h.1 b hb (hlisted a b hb))⟩
    · exact ih h.2 a ha

/-- Where references from every listed identity are well-founded, there is no cycle. -/
theorem isAcyclic_of_acc {catalog : Catalog}
    (h : ∀ id ∈ catalog.ids, Acc (fun b a => Refers catalog.definitions a b) id) :
    IsAcyclic catalog.definitions := by
  intro id hcycle
  have hmem : id ∈ catalog.ids := by
    obtain ⟨b, hb, -⟩ := Relation.TransGen.head'_iff.mp hcycle
    obtain ⟨d, hd, rfl, -⟩ := hb
    rw [ids_eq_map_definitions]
    exact List.mem_map_of_mem hd
  have hacc := (h id hmem).transGen
  -- Of two references that lead around a cycle each would lie below the other.
  induction hacc with
  | intro a _ ih => exact ih a (Relation.transGen_swap.mp hcycle) hcycle hmem

/-- The search of `checkAcyclic` settles all listed identities, or finds a cycle. -/
theorem isOutcome_searchAll {catalog : Catalog} (hids : catalog.ids.Nodup) :
    catalog.IsOutcome [] catalog.ids (catalog.foldlM
      (fun finished e => catalog.search (catalog.length + 1) [] finished e.definition.id) []) := by
  have hfold := isOutcome_foldlM (catalog.search (catalog.length + 1) []) catalog.ids
    (fun done hdone id _ => isOutcome_search hids _
      { leads := .singleton _
        nodup := List.nodup_nil
        listed := by simp
        bounded := by simp
        settled := hdone }) (show catalog.IsSettled [] from trivial)
  rw [ids, List.foldlM_map] at hfold
  exact hfold

/-- Without a cycle, references from every listed identity are well-founded. -/
theorem acc_of_isAcyclic {catalog : Catalog} (hids : catalog.ids.Nodup)
    (hlisted : ∀ a b, Refers catalog.definitions a b → b ∈ catalog.ids)
    (hacyclic : IsAcyclic catalog.definitions) :
    ∀ id ∈ catalog.ids, Acc (fun b a => Refers catalog.definitions a b) id := by
  intro id hid
  have hall := isOutcome_searchAll hids
  cases hf : catalog.foldlM
      (fun finished e => catalog.search (catalog.length + 1) [] finished e.definition.id) [] with
  | error cycle =>
    rw [hf] at hall
    exact absurd hacyclic hall.not_isAcyclic
  | ok done =>
    rw [hf] at hall
    obtain ⟨hdone, -, hmem⟩ := hall
    exact acc_of_isSettled hlisted hdone id (hmem id hid hid)

/-- `checkAcyclic` accepts a catalog with listed references exactly if no identity leads back to itself. -/
theorem checkAcyclic_eq_ok_iff {catalog : Catalog} (hids : catalog.ids.Nodup)
    (hlisted : ∀ a b, Refers catalog.definitions a b → b ∈ catalog.ids) :
    catalog.checkAcyclic = .ok () ↔ IsAcyclic catalog.definitions := by
  have hall := isOutcome_searchAll hids
  unfold checkAcyclic
  cases hf : catalog.foldlM
      (fun finished e => catalog.search (catalog.length + 1) [] finished e.definition.id) [] with
  | error cycle =>
    rw [hf] at hall
    simpa using hall.not_isAcyclic
  | ok done =>
    rw [hf] at hall
    obtain ⟨hdone, -, hmem⟩ := hall
    simp only [true_iff]
    exact isAcyclic_of_acc fun id hid =>
      acc_of_isSettled hlisted hdone id (hmem id hid hid)

end Catalog

end Tagwire
