import Mathlib.Data.List.Basic
import Tagwire.Proofs.Schema.Bundled
import Tagwire.Proofs.Schema.Reading

/-!
# Loading a rendered document

Loading a document loads the bundled documents it imports, and what these import, before it.  Since each
leads to a lower level only, the depth never runs out and no document imports itself; and since each is
loaded once, the loaded documents are distinct and closed under imports.
-/

set_option autoImplicit false

namespace Tagwire

/-- The paths that the document imports are distinct and those of importable documents. -/
structure SchemaDocument.IsImporting (document : SchemaDocument) : Prop where
  importable : ∀ path ∈ document.imports, path ∈ Schema.Bundled.importable.map Schema.SchemaFile.path
  nodup : document.imports.Nodup

namespace Schema

open Bundled

/-- The loaded documents are importable ones with distinct paths, and all that they import is among them. -/
structure IsClosed (loaded : List SchemaFile) : Prop where
  importable : ∀ f ∈ loaded, f ∈ Bundled.importable
  nodup : (loaded.map SchemaFile.path).Nodup
  imported : ∀ f ∈ loaded, ∀ i ∈ f.imports, i.path ∈ loaded.map SchemaFile.path

/-- The documents `result` are closed, contain those loaded before, and all others have an `importLevel` below
`level`. -/
structure IsExtension (level : Nat) (loaded result : List SchemaFile) : Prop extends IsClosed result where
  subset : loaded ⊆ result
  below : ∀ f ∈ result, f ∈ loaded ∨ importLevel f.path < level

/-- No documents are closed. -/
theorem isClosed_nil : IsClosed [] := ⟨by simp, by simp, by simp⟩

namespace IsClosed

variable {loaded : List SchemaFile}

/-- An importable document whose path is that of a closed one is among these. -/
theorem mem_of_path_mem (h : IsClosed loaded) {f : SchemaFile} (hf : f ∈ Bundled.importable)
    (hp : f.path ∈ loaded.map SchemaFile.path) : f ∈ loaded := by
  obtain ⟨g, hg, hpath⟩ := List.mem_map.mp hp
  rwa [← eq_of_path_eq (h.importable g hg) hf hpath]

/-- Among closed documents and any others behind them, the first one with the path of a closed one is this. -/
theorem find?_path (h : IsClosed loaded) {f : SchemaFile} (hf : f ∈ loaded)
    (more : List SchemaFile) : (loaded ++ more).find? (fun g => g.path == f.path) = some f := by
  have hsome : (loaded.find? fun g => g.path == f.path).isSome = true := by
    rw [List.find?_isSome]
    exact ⟨f, hf, by simp⟩
  obtain ⟨g, hg⟩ := Option.isSome_iff_exists.mp hsome
  have hpath : g.path = f.path := by simpa using List.find?_some hg
  have hgf := eq_of_path_eq (h.importable g (List.mem_of_find?_eq_some hg)) (h.importable f hf) hpath
  rw [List.find?_append, hg, hgf, Option.some_or]

end IsClosed

/-- A document whose imports are loaded extends what is loaded, at a level above its own. -/
theorem IsExtension.append {loaded next : List SchemaFile} {f : SchemaFile}
    (h : IsExtension (importLevel f.path) loaded next) (hf : f ∈ Bundled.importable)
    (hnew : f.path ∉ next.map SchemaFile.path)
    (himports : ∀ i ∈ f.imports, i.path ∈ next.map SchemaFile.path) :
    IsExtension (importLevel f.path + 1) loaded (next ++ [f]) := by
  constructor
  case toIsClosed =>
    constructor
    case importable =>
      intro g hg
      rcases List.mem_append.mp hg with hg | hg
      · exact h.importable g hg
      · exact List.mem_singleton.mp hg ▸ hf
    case nodup =>
      rw [List.map_append, List.map_singleton]
      apply List.Nodup.append h.nodup (by simp)
      rwa [List.disjoint_singleton]
    case imported =>
      intro g hg i hi
      rw [List.map_append]
      rcases List.mem_append.mp hg with hg | hg
      · exact List.mem_append_left _ (h.imported g hg i hi)
      · rw [List.mem_singleton.mp hg] at hi
        exact List.mem_append_left _ (himports i hi)
  case subset => exact fun g hg => List.mem_append_left _ (h.subset hg)
  case below =>
    intro g hg
    rcases List.mem_append.mp hg with hg | hg
    · rcases h.below g hg with hold | hlt
      · exact .inl hold
      · exact .inr (by omega)
    · rw [List.mem_singleton.mp hg]
      exact .inr (by omega)

/-- If each of some paths can be loaded as an extension, all can be, one after the other. -/
theorem exists_foldlM_load {load : List SchemaFile → String → Option (List SchemaFile)} {level : Nat}
    {paths : List String}
    (hload : ∀ p ∈ paths, ∀ loaded, IsClosed loaded → ∃ result, load loaded p = some result ∧
      IsExtension level loaded result ∧ p ∈ result.map SchemaFile.path)
    {loaded : List SchemaFile} (h : IsClosed loaded) :
    ∃ result, paths.foldlM load loaded = some result ∧ IsExtension level loaded result ∧
      ∀ p ∈ paths, p ∈ result.map SchemaFile.path := by
  induction paths generalizing loaded with
  | nil => exact ⟨loaded, rfl, ⟨h, List.Subset.refl _, fun f hf => .inl hf⟩, by simp⟩
  | cons p paths ih =>
    obtain ⟨next, hnext, hfirst, hp⟩ := hload p (by simp) loaded h
    obtain ⟨result, hresult, hrest, hps⟩ :=
      ih (fun q hq => hload q (by simp [hq])) hfirst.toIsClosed
    refine ⟨result, ?_, ⟨hrest.toIsClosed, fun f hf => hrest.subset (hfirst.subset hf), ?_⟩, ?_⟩
    · rw [List.foldlM_cons, hnext]
      exact hresult
    · intro f hf
      rcases hrest.below f hf with hmem | hlt
      · exact hfirst.below f hmem
      · exact .inr hlt
    · intro q hq
      rcases List.mem_cons.mp hq with rfl | hq
      · exact List.map_subset _ hrest.subset hp
      · exact hps q hq

/-- With fuel above its `importLevel`, an importable document is loaded with all that it imports. -/
theorem exists_load {opener : Opener} (hopen : ∀ f ∈ importable, opener f.path = some f) (fuel : Nat)
    {f : SchemaFile} (hf : f ∈ importable) (hfuel : importLevel f.path < fuel)
    (importing : List String)
    (himporting : ∀ g ∈ importable, g.path ∈ importing → importLevel f.path < importLevel g.path)
    {loaded : List SchemaFile} (h : IsClosed loaded) :
    ∃ result, load? opener fuel importing loaded f.path = some result ∧
      IsExtension (importLevel f.path + 1) loaded result ∧ f.path ∈ result.map SchemaFile.path := by
  induction fuel generalizing f importing loaded with
  | zero => omega
  | succ fuel ih =>
    have hnot : f.path ∉ importing := fun hmem => lt_irrefl _ (himporting f hf hmem)
    rw [load?, if_neg (by simpa using hnot)]
    by_cases hany : loaded.any (fun g => g.path == f.path) = true
    · obtain ⟨g, hg, hpath⟩ := List.any_eq_true.mp hany
      rw [if_pos hany]
      exact ⟨loaded, rfl, ⟨h, List.Subset.refl _, fun f hf => .inl hf⟩,
        List.mem_map.mpr ⟨g, hg, by simpa using hpath⟩⟩
    · obtain ⟨hpaths, himports⟩ := imports_spec f hf
      have hload : ∀ p ∈ f.imports.map Import.path, ∀ loaded, IsClosed loaded →
          ∃ result, load? opener fuel (f.path :: importing) loaded p = some result ∧
            IsExtension (importLevel f.path) loaded result ∧ p ∈ result.map SchemaFile.path := by
        intro p hp loaded hloaded
        obtain ⟨i, hi, rfl⟩ := List.mem_map.mp hp
        obtain ⟨-, g, hg, hgi, hlevel⟩ := himports i hi
        obtain ⟨result, hresult, hext, hmem⟩ := ih hg (by omega) (f.path :: importing)
          (fun k hk hkmem => by
            rcases List.mem_cons.mp hkmem with hkf | hkmem
            · rwa [hkf]
            · exact hlevel.trans (himporting k hk hkmem)) hloaded
        refine ⟨result, hgi ▸ hresult, ⟨hext.toIsClosed, hext.subset, fun k hk => ?_⟩, hgi ▸ hmem⟩
        rcases hext.below k hk with hmem' | hlt
        · exact .inl hmem'
        · exact .inr (by omega)
      obtain ⟨next, hnext, hext, hall⟩ := exists_foldlM_load hload h
      -- What the imports bring in lies below, so that the document itself is not there yet.
      have hnew : f.path ∉ next.map SchemaFile.path := by
        intro hmem
        rcases hext.below f (hext.toIsClosed.mem_of_path_mem hf hmem) with hold | hlt
        · exact hany (List.any_eq_true.mpr ⟨f, hold, by simp⟩)
        · exact lt_irrefl _ hlt
      refine ⟨next ++ [f], ?_, hext.append hf hnew fun i hi => hall _ (List.mem_map_of_mem hi), by simp⟩
      rw [if_neg hany, hopen f hf]
      simp only [Option.bind_eq_bind, Option.bind_some, hnext, if_pos hpaths, Option.pure_def]

/-! ## A rendered document -/

/-- The path of an importable document is not `inlineDocumentName`. -/
theorem path_ne_inlineDocumentName : ∀ f ∈ importable, f.path ≠ inlineDocumentName := by
  decide

/-- The text of a plain and readable document is loaded, behind closed documents that have all that it imports,
if its numbers are below `2 ^ 29`. -/
theorem exists_load_text {document : SchemaDocument} (hd : document.IsPlain)
    (hf : ∀ f ∈ document.fields, f.IsReadable) (hi : document.IsImporting) :
    ∃ loaded, IsClosed loaded ∧
      (∀ path ∈ document.imports, path ∈ loaded.map SchemaFile.path) ∧
      ∀ files, load? (openInline document.text) (Bundled.all.length + 2) [] [] inlineDocumentName =
          some files ↔
        (∀ f ∈ document.fields, f.number < 2 ^ 29) ∧ files = loaded ++ [document.file] := by
  have hopen : ∀ f ∈ importable, openInline document.text f.path = some f := by
    intro f hf
    rw [openInline, if_neg (path_ne_inlineDocumentName f hf), Bundled.find?_path f hf]
  have hload : ∀ p ∈ document.imports, ∀ loaded, IsClosed loaded →
      ∃ result, load? (openInline document.text) (Bundled.all.length + 1) [inlineDocumentName] loaded p =
          some result ∧ IsExtension 3 loaded result ∧ p ∈ result.map SchemaFile.path := by
    intro p hp loaded hloaded
    obtain ⟨f, hf, rfl⟩ := List.mem_map.mp (hi.importable p hp)
    have hlevel := importLevel_le f.path
    obtain ⟨result, hresult, hext, hmem⟩ := exists_load hopen (Bundled.all.length + 1) hf
      (by simp [Bundled.all]; omega) [inlineDocumentName]
      (fun g hg hmem => absurd (List.mem_singleton.mp hmem) (path_ne_inlineDocumentName g hg)) hloaded
    refine ⟨result, hresult, ⟨hext.toIsClosed, hext.subset, fun g hg => ?_⟩, hmem⟩
    rcases hext.below g hg with hold | hlt
    · exact .inl hold
    · exact .inr (by omega)
  obtain ⟨loaded, hloaded, hext, hall⟩ := exists_foldlM_load hload isClosed_nil
  refine ⟨loaded, hext.toIsClosed, hall, fun files => ?_⟩
  have himports : document.file.imports.map Import.path = document.imports := by
    simp [SchemaDocument.file, Function.comp_def]
  rw [load?]
  simp only [List.contains_nil, Bool.false_eq_true, if_false, List.any_nil, openInline, if_true,
    Option.bind_eq_bind, Option.bind_eq_some_iff, SchemaFile.ofText?_text hd hf]
  constructor
  · rintro ⟨_, ⟨hn, rfl⟩, next, hnext, hresult⟩
    rw [himports, hloaded, Option.some.injEq] at hnext
    subst hnext
    rw [himports, if_pos hi.nodup, Option.pure_def, Option.some.injEq] at hresult
    exact ⟨hn, hresult.symm⟩
  · rintro ⟨hn, rfl⟩
    refine ⟨_, ⟨hn, rfl⟩, loaded, ?_, ?_⟩
    · rw [himports]
      exact hloaded
    · rw [himports, if_pos hi.nodup]
      rfl

end Schema

end Tagwire
