import Tagwire.Proofs.Schema.Loading

/-!
# What the names of a rendered document stand for

The messages of a compiled document are named by identifiers with the ending of message names, and the
bundled types all stand in one package.  So no name of the one kind, alone or within another, is a name of
the other, and a type of a line stands for what it says: a name of the document for the message of the
document, and a well-known name for the bundled type.
-/

set_option autoImplicit false

namespace Tagwire

open Schema

/-! ## Well-formed documents -/

/-- The type name is the keyword of a scalar, the full name of a well-known type whose document is imported, or
the name of a block. -/
inductive SchemaDocument.IsType (document : SchemaDocument) : String → Prop
  | scalar (kind : Scalar) : IsType document kind.keyword
  | wellKnown (kind : WellKnown) (h : kind.importPath ∈ document.imports) :
    IsType document kind.typeName
  | message {block : MessageBlock} (h : block ∈ document.messages) : IsType document block.name.text

/-- All that a document needs to link but for the bounds of its numbers and distinct folded names: its imports
are importable documents, its message names are distinct and end in `messageSuffix`, and the lines of each block
have identifiers for names, types with `IsType`, and distinct record keys and distinct positive numbers. -/
structure SchemaDocument.IsWellFormed (document : SchemaDocument) : Prop extends
    document.IsImporting where
  names_nodup : (document.messages.map fun b => b.name.text).Nodup
  names_suffix : ∀ b ∈ document.messages, ∃ stem, b.name.text = stem ++ messageSuffix
  identifiers : ∀ f ∈ document.fields, isIdentifier f.name = true
  numbers_pos : ∀ f ∈ document.fields, 0 < f.number
  numbers_nodup : ∀ b ∈ document.messages, (b.fields.map SchemaField.number).Nodup
  keys_nodup : ∀ b ∈ document.messages, (b.fields.map fun f => lowerCamel f.name).Nodup
  types : ∀ f ∈ document.fields, document.IsType f.typeName

/-- The text of a message name is an identifier. -/
theorem MessageName.isIdentifier_text (name : MessageName) : isIdentifier name.text = true := by
  have h := name.wellFormed
  simp only [isMessageName, Bool.and_eq_true] at h
  exact h.1.2

/-! ## Names within names -/

/-- A name with `messageSuffix` is not equal to a text without it. -/
theorem append_messageSuffix_ne {a stem : String}
    (h : messageSuffix.toList.isSuffixOf a.toList = false) : stem ++ messageSuffix ≠ a := by
  rintro rfl
  have htrue : messageSuffix.toList.isSuffixOf (stem ++ messageSuffix).toList = true := by
    rw [List.isSuffixOf_iff_suffix, String.toList_append]
    exact List.suffix_append _ _
  rw [htrue] at h
  cases h

/-- Two names that are equal, each with a part before the first point, are equal in both parts. -/
theorem append_point_inj {a b x y : String} (ha : '.' ∉ a.toList) (hb : '.' ∉ b.toList)
    (h : a ++ "." ++ x = b ++ "." ++ y) : a = b ∧ x = y := by
  have hsplit : ∀ c z : String, (c ++ "." ++ z).toList = c.toList ++ '.' :: z.toList := by
    intro c z
    simp
  have hlist : a.toList ++ '.' :: x.toList = b.toList ++ '.' :: y.toList := by
    rw [← hsplit, ← hsplit, h]
  have hwords := congrArg (List.splitOn '.') hlist
  rw [List.splitOn_append_cons_self, List.splitOn_append_cons_self, List.splitOn_eq_singleton ha,
    List.splitOn_eq_singleton hb] at hwords
  have hab : a.toList = b.toList := (List.cons.inj hwords).1
  rw [hab] at hlist
  exact ⟨String.toList_inj.mp hab,
    String.toList_inj.mp (List.cons.inj (List.append_cancel_left hlist)).2⟩

/-- A name with a point is no identifier. -/
theorem append_point_ne {a x name : String} (h : isIdentifier name = true) : a ++ "." ++ x ≠ name := by
  rintro rfl
  exact point_not_mem_of_isIdentifier h (by simp)

namespace Schema

/-- A bundled name begins with `google`. -/
theorem fullName_eq (short : String) :
    Bundled.fullName short = "google" ++ "." ++ ("protobuf" ++ "." ++ short) := by
  simp [Bundled.fullName, WellKnown.package, ← String.append_assoc]

/-- The `packageNames` of the bundled package are `google.protobuf` and `google`. -/
theorem packageNames_package : packageNames WellKnown.package = ["google.protobuf", "google"] := by
  decide

/-- The `packageNames` of an importable document are `google.protobuf` and `google`. -/
theorem mem_packageNames_bundled {f : SchemaFile} (hf : f ∈ Bundled.importable) {p : String}
    (hp : p ∈ packageNames f.package) : p = "google" ++ "." ++ "protobuf" ∨ p = "google" := by
  rw [(Bundled.declarations_spec f hf).1, packageNames_package, List.mem_cons,
    List.mem_singleton] at hp
  exact hp

namespace Bundled

/-- No bundled name is an identifier. -/
theorem fullName_ne {short name : String} (h : isIdentifier name = true) : fullName short ≠ name := by
  rw [fullName_eq]
  exact append_point_ne h

/-- No bundled name is in the scope of a message with `messageSuffix`. -/
theorem fullName_ne_append {short stem x : String}
    (h : isIdentifier (stem ++ messageSuffix) = true) :
    fullName short ≠ stem ++ messageSuffix ++ "." ++ x := by
  rw [fullName_eq]
  intro heq
  have hfirst := (append_point_inj (by decide) (point_not_mem_of_isIdentifier h) heq).1
  exact append_messageSuffix_ne (by decide) hfirst.symm

/-- Each name that an importable document declares is a bundled name. -/
theorem exists_fullName_of_mem_names : ∀ f ∈ importable, ∀ n ∈ f.names, ∃ short, n = fullName short := by
  intro f hf n hn
  obtain ⟨-, hextensions, hservices, hmessages, henums⟩ := declarations_spec f hf
  have hqualified : ∀ {scope x : String}, (scope = WellKnown.package ∨ ∃ short, scope = fullName short) →
      ∃ short, qualified scope x = fullName short := by
    rintro scope x (rfl | ⟨short, rfl⟩)
    · exact ⟨x, rfl⟩
    · refine ⟨short ++ "." ++ x, ?_⟩
      simp [qualified, fullName, String.append_assoc]
  simp only [SchemaFile.names, hextensions, hservices, List.map_nil, List.flatMap_nil, List.append_nil,
    List.mem_append, List.mem_flatMap, List.mem_cons, List.mem_map] at hn
  rcases hn with ⟨m, hm, hn⟩ | ⟨e, he, hn⟩
  · have hname := hmessages m hm
    rcases hn with (rfl | ⟨g, -, rfl⟩) | ⟨o, -, rfl⟩
    · exact hname
    · exact hqualified (.inr hname)
    · exact hqualified (.inr hname)
  · obtain ⟨hname, hscope, -⟩ := henums e he
    rcases hn with rfl | ⟨v, -, rfl⟩
    · exact hname
    · exact hqualified hscope

/-- The full name of a well-known type is a bundled name. -/
theorem exists_fullName_typeName (kind : WellKnown) : ∃ short, kind.typeName = fullName short := by
  obtain ⟨f, hf, -, hdeclared⟩ := exists_declaration kind
  obtain ⟨-, -, -, hmessages, henums⟩ := declarations_spec f hf
  split at hdeclared
  · obtain ⟨e, he, heq⟩ := List.mem_map.mp hdeclared
    exact heq ▸ (henums e he).1
  · obtain ⟨m, hm, heq⟩ := List.mem_map.mp hdeclared
    exact heq ▸ hmessages m hm

end Bundled

/-! ## Visible documents -/

/-- The `publicClosure` of paths of importable documents is these documents, since none of their imports is
public. -/
theorem publicClosure_eq {files : List SchemaFile} {paths : List String}
    (h : ∀ p ∈ paths, ∃ f ∈ Bundled.importable, f.path = p ∧
      files.find? (fun g => g.path == p) = some f) (fuel : Nat) :
    publicClosure files (fuel + 1) paths = paths.filterMap Bundled.find? := by
  have hnone : publicClosure files fuel [] = [] := by cases fuel <;> rfl
  induction paths with
  | nil => rfl
  | cons p paths ih =>
    obtain ⟨f, hf, rfl, hfind⟩ := h p (by simp)
    have hpublic : f.imports.filter Import.isPublic = [] := by
      rw [List.filter_eq_nil_iff]
      intro i hi
      simp [((Bundled.imports_spec f hf).2 i hi).1]
    have hrest := ih fun q hq => h q (by simp [hq])
    rw [publicClosure] at hrest ⊢
    rw [List.flatMap_cons, hrest, hfind, List.filterMap_cons, Bundled.find?_path f hf]
    simp [hpublic, hnone]

/-- The importable documents are closed. -/
theorem isClosed_importable : IsClosed Bundled.importable := by
  refine ⟨fun _ h => h, Bundled.paths_nodup, fun f hf i hi => ?_⟩
  obtain ⟨-, g, hg, hpath, -⟩ := (Bundled.imports_spec f hf).2 i hi
  exact hpath ▸ List.mem_map_of_mem hg

/-- A document behind closed ones sees itself and what it imports, and nothing else. -/
theorem visibleFiles_eq {loaded : List SchemaFile} (more : List SchemaFile) (hl : IsClosed loaded) {f : SchemaFile}
    (hf : ∀ i ∈ f.imports, i.path ∈ loaded.map SchemaFile.path) :
    visibleFiles (loaded ++ more) f = f :: (f.imports.map Import.path).filterMap Bundled.find? := by
  rw [visibleFiles, publicClosure_eq]
  intro p hp
  obtain ⟨i, hi, rfl⟩ := List.mem_map.mp hp
  obtain ⟨g, hg, hpath⟩ := List.mem_map.mp (hf i hi)
  exact ⟨g, hl.importable g hg, hpath, hpath ▸ hl.find?_path hg more⟩

/-- A document of closed ones links, whatever documents are behind them. -/
theorem exists_link?_bundled {loaded : List SchemaFile} (more : List SchemaFile) (hl : IsClosed loaded) {f : SchemaFile}
    (hf : f ∈ loaded) : ∃ schema, f.link? (loaded ++ more) = some schema := by
  have himportable := hl.importable f hf
  have hvisible : visibleFiles (loaded ++ more) f = visibleFiles Bundled.importable f := by
    have hall := visibleFiles_eq [] isClosed_importable
      (isClosed_importable.imported f himportable)
    rw [List.append_nil] at hall
    rw [visibleFiles_eq more hl (hl.imported f hf), hall]
  have hlink : f.link? (loaded ++ more) = f.link? Bundled.importable := by
    unfold SchemaFile.link? Visible.ofFile
    rw [hvisible]
  rw [hlink]
  exact Option.isSome_iff_exists.mp (Bundled.link?_isSome f himportable)

end Schema

end Tagwire
