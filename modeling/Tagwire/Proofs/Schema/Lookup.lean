import Mathlib.Data.List.TakeWhile
import Tagwire.Proofs.Layout
import Tagwire.Proofs.Schema.Loaded

/-!
# Finding types in a loaded schema

A name finds a type in a schema either as its full name, with or without a dot in front, or as the last part
of no other full name.  The registry of the schema lists the types that it shows under the same names, but
for those with a dot in front.
-/

set_option autoImplicit false

namespace Tagwire

/-! ## The last part of a name -/

/-- A name without a dot is its own `bareName`. -/
theorem bareName_eq_self {name : String} (h : '.' ∉ name.toList) : bareName name = name := by
  have hkept : name.toList.reverse.takeWhile (· != '.') = name.toList.reverse := by
    rw [List.takeWhile_eq_self_iff]
    intro c hc
    rw [bne_iff_ne]
    rintro rfl
    exact h (List.mem_reverse.mp hc)
  rw [bareName, hkept, List.reverse_reverse, String.ofList_toList]

/-- The `bareName` of a name has no dot. -/
theorem point_not_mem_bareName (name : String) : '.' ∉ (bareName name).toList := by
  rw [bareName, String.toList_ofList, List.mem_reverse]
  intro hmem
  have hall := List.all_takeWhile (p := (· != '.')) (l := name.toList.reverse)
  have hpoint := List.all_eq_true.mp hall '.' hmem
  exact absurd hpoint (by decide)

namespace Schema

/-! ## Names that find a type -/

/-- For a name that is not absolute `lookup?` is `message?`. -/
theorem lookup?_eq {name : String} (h : ¬ IsAbsolute name) (schema : Schema) :
    schema.lookup? name = schema.message? name := by
  unfold lookup?
  split
  · rename_i rest hname
    unfold IsAbsolute at h
    rw [hname] at h
    exact absurd rfl h
  · rfl

/-- The three ways in which a name finds a type: as its full name, as an absolute name, or as the `bareName` of
its full name and of no other, if no full name is equal to it. -/
inductive Finds (schema : Schema) (name : String) (type : MessageType) : Prop
  | full (h : schema.message? name = some type)
  | absolute (h : IsAbsolute name)
  | bare (hnone : schema.message? name = none) (hbare : bareName type.name = name)
      (hunique : ∀ other found, schema.message? other = some found → bareName other = name →
        other = type.name)

/-- If a filter leaves one element of a list, it is each element that satisfies the filter. -/
theorem eq_of_filter_eq_singleton {α : Type} {p : α → Bool} {l : List α} {a b : α}
    (h : l.filter p = [a]) (hb : b ∈ l) (hp : p b = true) : b = a := by
  have hkept : b ∈ l.filter p := List.mem_filter.mpr ⟨hb, hp⟩
  rw [h] at hkept
  exact List.mem_singleton.mp hkept

namespace IsLinked

variable {schema : Schema} {name : String} {type : MessageType}

/-- A type that `message?` gives has this name, which is not absolute, and is linked. -/
theorem of_message? (h : schema.IsLinked) (htype : schema.message? name = some type) :
    type.name = name ∧ ¬ IsAbsolute name ∧ type.IsLinked := by
  have hmem := Entries.mem_of_get?_eq_some htype
  exact ⟨h.named _ hmem, h.relative _ hmem, h.linked _ hmem⟩

/-- `find?` gives a linked type under its full name. -/
theorem find?_of_message? (h : schema.IsLinked) (htype : schema.message? name = some type) :
    schema.find? name = some type := by
  rw [find?, lookup?_eq (h.of_message? htype).2.1, htype]

/-- A name is among `messageNames` exactly if it is the full name of a type and not that of a well-known
type. -/
theorem mem_messageNames_iff (h : schema.IsLinked) : name ∈ schema.messageNames ↔
    (∃ type, schema.message? name = some type) ∧ isWellKnownName name = false := by
  unfold messageNames
  rw [List.mem_filter, Bool.not_eq_true', and_congr_left_iff]
  intro _
  constructor
  · intro hmem
    obtain ⟨e, he, rfl⟩ := List.mem_map.mp hmem
    exact ⟨e.2, Entries.get?_eq_some_of_mem h.sorted he⟩
  · rintro ⟨type, htype⟩
    exact List.mem_map_of_mem (f := Prod.fst) (Entries.mem_of_get?_eq_some htype)

/-- `messageNames` has no name twice. -/
theorem nodup_messageNames (h : schema.IsLinked) : schema.messageNames.Nodup := h.sorted.nodup.filter _

/-- A type that `find?` gives is under its own full name, and the name leads to it as `Finds` says. -/
theorem of_find? (h : schema.IsLinked) (hfind : schema.find? name = some type) :
    schema.message? type.name = some type ∧ schema.Finds name type := by
  unfold find? at hfind
  split at hfind
  · rename_i found hlookup
    cases hfind
    -- The lookup drops the dot of an absolute name, so only one that is not is the key itself.
    by_cases habsolute : IsAbsolute name
    · refine ⟨?_, .absolute habsolute⟩
      unfold lookup? at hlookup
      split at hlookup
      · exact (h.of_message? hlookup).1.symm ▸ hlookup
      · exact (h.of_message? hlookup).1.symm ▸ hlookup
    · rw [lookup?_eq habsolute] at hlookup
      exact ⟨(h.of_message? hlookup).1.symm ▸ hlookup, .full hlookup⟩
  · rename_i hnone
    split at hfind
    · cases hfind
    · rename_i hpoint
      rw [List.contains_iff_mem] at hpoint
      rw [lookup?_eq (not_isAbsolute_of_point_not_mem hpoint)] at hnone
      split at hfind
      · -- No type has this full name, and only the entry `e` ends in it.
        rename_i e he
        cases hfind
        have hself : e ∈ schema.messages ∧ bareName e.2.name = name := by
          have hfiltered : e ∈ [e] := List.mem_singleton_self e
          rw [← he] at hfiltered
          exact (List.mem_filter.mp hfiltered).imp_right beq_iff_eq.mp
        have hname : e.2.name = e.1 := h.named e hself.1
        refine ⟨hname ▸ Entries.get?_eq_some_of_mem h.sorted hself.1, .bare hnone hself.2 ?_⟩
        intro other found hfound hbare
        have hother := Entries.mem_of_get?_eq_some hfound
        have heq := eq_of_filter_eq_singleton he hother
          (beq_iff_eq.mpr ((h.named _ hother).symm ▸ hbare))
        rw [hname, ← heq]
      · cases hfind

/-! ## The registry -/

/-- The schema registers a listed type under its full name, and under its `bareName` if no other listed name has
the same. -/
theorem mem_registered_iff (h : schema.IsLinked) {registered : RegisteredType} :
    registered ∈ schema.registered ↔ ∃ type, schema.message? type.name = some type ∧
      type.name ∈ schema.messageNames ∧ (registered = type.registered type.name ∨
        bareName type.name ≠ type.name ∧
          (schema.messageNames.filter fun n => bareName n == bareName type.name).length = 1 ∧
          registered = type.registered (bareName type.name)) := by
  unfold Schema.registered
  rw [List.mem_flatMap]
  constructor
  · rintro ⟨name, hname, hmem⟩
    obtain ⟨type, htype⟩ := (h.mem_messageNames_iff.mp hname).1
    obtain rfl := (h.of_message? htype).1
    rw [h.find?_of_message? htype] at hmem
    refine ⟨type, htype, hname, ?_⟩
    dsimp only at hmem
    split at hmem
    · rename_i hbare
      rcases List.mem_cons.mp hmem with hmem | hmem
      · exact .inr ⟨hbare.1, hbare.2, hmem⟩
      · exact .inl (List.mem_singleton.mp hmem)
    · exact .inl (List.mem_singleton.mp hmem)
  · rintro ⟨type, htype, hname, hregistered⟩
    refine ⟨type.name, hname, ?_⟩
    rw [h.find?_of_message? htype]
    dsimp only
    split
    · rcases hregistered with rfl | ⟨-, -, rfl⟩
      · exact List.mem_cons_of_mem _ List.mem_cons_self
      · exact List.mem_cons_self
    · rename_i hbare
      rcases hregistered with rfl | ⟨hne, hone, rfl⟩
      · exact List.mem_cons_self
      · exact absurd ⟨hne, hone⟩ hbare

/-- What is registered under a name that finds a listed type is this type, registered under this name. -/
theorem eq_registered_of_mem (h : schema.IsLinked) (hfind : schema.find? name = some type)
    (hlisted : type.name ∈ schema.messageNames) {registered : RegisteredType}
    (hmem : registered ∈ schema.registered) (hname : registered.name = name) :
    registered = type.registered name := by
  obtain ⟨other, hother, hotherListed, hregistered⟩ := h.mem_registered_iff.mp hmem
  obtain ⟨htype, hfinds⟩ := h.of_find? hfind
  rcases hregistered with rfl | ⟨-, hone, rfl⟩
  · have hfull : other.name = name := hname
    rw [← hfull, h.find?_of_message? hother] at hfind
    rw [Option.some.inj hfind] at hfull ⊢
    rw [hfull]
  · -- Both full names end in the name that finds the type, and only one listed name does.
    have hbare : bareName other.name = name := hname
    have hpoint : '.' ∉ name.toList := hbare ▸ point_not_mem_bareName other.name
    have hsame : bareName type.name = name := by
      cases hfinds with
      | full hfull => rw [(h.of_message? hfull).1, bareName_eq_self hpoint]
      | absolute habsolute => exact absurd habsolute (not_isAbsolute_of_point_not_mem hpoint)
      | bare _ hbare _ => exact hbare
    obtain ⟨only, honly⟩ := List.length_eq_one_iff.mp hone
    have hnames : other.name = type.name := by
      rw [eq_of_filter_eq_singleton honly hotherListed (beq_self_eq_true _),
        eq_of_filter_eq_singleton honly hlisted (beq_iff_eq.mpr (hsame.trans hbare.symm))]
    rw [hnames, htype] at hother
    rw [hbare, Option.some.inj hother]

/-- A listed type is registered under each name that finds it and is not absolute. -/
theorem registered_mem (h : schema.IsLinked) (hname : ¬ IsAbsolute name)
    (hfind : schema.find? name = some type) (hlisted : type.name ∈ schema.messageNames) :
    type.registered name ∈ schema.registered := by
  obtain ⟨htype, hfinds⟩ := h.of_find? hfind
  refine h.mem_registered_iff.mpr ⟨type, htype, hlisted, ?_⟩
  cases hfinds with
  | full hfull => exact .inl (by rw [(h.of_message? hfull).1])
  | absolute habsolute => exact absurd habsolute hname
  | bare hnone hbare hunique =>
    -- The name is not the full one, under which it would have been found.
    refine .inr ⟨fun heq => ?_, ?_, by rw [hbare]⟩
    · rw [← heq, hbare, hnone] at htype
      cases htype
    · have hperm : (schema.messageNames.filter fun n => bareName n == bareName type.name).Perm
          [type.name] := by
        rw [List.perm_ext_iff_of_nodup (h.nodup_messageNames.filter _) (List.nodup_singleton _)]
        intro n
        rw [List.mem_filter, beq_iff_eq, List.mem_singleton, hbare]
        constructor
        · rintro ⟨hn, hnbare⟩
          obtain ⟨found, hfound⟩ := (h.mem_messageNames_iff.mp hn).1
          exact hunique n found hfound hnbare
        · rintro rfl
          exact ⟨hlisted, hbare⟩
      exact hperm.length_eq

/-- The registry has a listed type under each name that finds it and is not absolute. -/
theorem get?_registry (h : schema.IsLinked) (hname : ¬ IsAbsolute name)
    (hfind : schema.find? name = some type) (hlisted : type.name ∈ schema.messageNames) :
    schema.registry.get? name = some (type.registered name) := by
  have hmem := h.registered_mem hname hfind hlisted
  -- A later type takes the place of an earlier one of its name, but all of this name are the same.
  have hsome : (schema.registered.reverse.find? fun t => t.name == name).isSome = true := by
    rw [List.find?_isSome]
    exact ⟨_, List.mem_reverse.mpr hmem, beq_self_eq_true name⟩
  obtain ⟨registered, hregistered⟩ := Option.isSome_iff_exists.mp hsome
  have hsame := h.eq_registered_of_mem hfind hlisted
    (List.mem_reverse.mp (List.mem_of_find?_eq_some hregistered))
    (by simpa using List.find?_some hregistered)
  rw [Schema.registry, Registry.get?_ofList, hregistered, hsame]

/-- The registry has nothing under an absolute name. -/
theorem get?_registry_of_isAbsolute (h : schema.IsLinked) (hname : IsAbsolute name) :
    schema.registry.get? name = none := by
  rw [Schema.registry, Registry.get?_ofList, List.find?_eq_none]
  intro registered hmem heq
  obtain ⟨type, htype, -, hregistered⟩ := h.mem_registered_iff.mp (List.mem_reverse.mp hmem)
  obtain rfl : registered.name = name := by simpa using heq
  rcases hregistered with rfl | ⟨-, -, rfl⟩
  · exact (h.of_message? htype).2.1 hname
  · exact not_isAbsolute_of_point_not_mem (point_not_mem_bareName type.name) hname

end IsLinked

end Schema

end Tagwire
