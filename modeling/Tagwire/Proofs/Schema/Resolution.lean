import Tagwire.Proofs.Schema.Visibility

/-!
# The types of the lines of a rendered document

A name in a message of a document is tried within the message first, where nothing stands that it could
be, and then as it is.  So the type of a line is the one that its text names: a scalar, a well-known
enumeration, or a message.
-/

set_option autoImplicit false

namespace Tagwire

open Schema

/-- The type that the type name of a line stands for: the scalar of a keyword, a well-known enumeration, or else
the message of this name. -/
def linkedType (typeName : String) : ValueType :=
  match Scalar.ofKeyword? typeName with
  | some kind => .scalar kind
  | none =>
    if (WellKnown.ofTypeName? typeName).any WellKnown.isEnum then .enum typeName
    else .message typeName

namespace SchemaDocument

/-- The bundled documents that a document imports. -/
def importedFiles (document : SchemaDocument) : List SchemaFile :=
  document.imports.filterMap Bundled.find?

/-- What the names in a document may lead to: its own messages, and what its `importedFiles` declare. -/
def visible (document : SchemaDocument) : Visible :=
  { packages := document.importedFiles.flatMap fun f => packageNames f.package
    messages := document.messages.map MessageBlock.declaration
      ++ document.importedFiles.flatMap fun f => f.declarations.messages
    enums := document.importedFiles.flatMap fun f => f.declarations.enums
    extensions := []
    services := [] }

variable {document : SchemaDocument}

/-- The `importedFiles` are the importable documents whose paths are imported. -/
theorem mem_importedFiles_iff (hi : document.IsImporting) {f : SchemaFile} :
    f ∈ document.importedFiles ↔ f ∈ Bundled.importable ∧ f.path ∈ document.imports := by
  unfold importedFiles
  rw [List.mem_filterMap]
  constructor
  · rintro ⟨p, hp, hfind⟩
    obtain ⟨g, hg, rfl⟩ := List.mem_map.mp (hi.importable p hp)
    rw [Bundled.find?_path g hg, Option.some.injEq] at hfind
    exact hfind ▸ ⟨hg, hp⟩
  · rintro ⟨hf, hp⟩
    exact ⟨f.path, hp, Bundled.find?_path f hf⟩

/-- What a document sees behind closed documents with all that it imports is `visible`. -/
theorem visible_eq (hi : document.IsImporting) {loaded : List SchemaFile} (hl : IsClosed loaded)
    (himports : ∀ path ∈ document.imports, path ∈ loaded.map SchemaFile.path) :
    Visible.ofFile (loaded ++ [document.file]) document.file = document.visible := by
  have hseen : visibleFiles (loaded ++ [document.file]) document.file =
      document.file :: document.importedFiles := by
    rw [visibleFiles_eq _ hl]
    · simp [SchemaDocument.file, importedFiles, Function.comp_def]
    · simpa [SchemaDocument.file] using himports
  have hextensions : document.importedFiles.flatMap (fun f => f.declarations.extensions) = [] := by
    rw [List.flatMap_eq_nil_iff]
    intro f hf
    exact (Bundled.declarations_spec f ((mem_importedFiles_iff hi).mp hf).1).2.1
  have hservices : document.importedFiles.flatMap (fun f => f.declarations.services) = [] := by
    rw [List.flatMap_eq_nil_iff]
    intro f hf
    exact (Bundled.declarations_spec f ((mem_importedFiles_iff hi).mp hf).1).2.2.1
  have hpackages : packageNames document.file.package = [] := by
    show packageNames "" = []
    decide
  unfold Visible.ofFile
  rw [hseen]
  simp only [List.flatMap_cons, hextensions, hservices, hpackages, List.nil_append]
  rfl

/-- A message is visible exactly if the document or one of its `importedFiles` declares it. -/
theorem isMessage_visible_iff (name : String) : document.visible.isMessage name = true ↔
    name ∈ document.messages.map (fun b => b.name.text) ∨
      ∃ f ∈ document.importedFiles, name ∈ f.declarations.messages.map MessageDeclaration.name := by
  simp only [Visible.isMessage, visible, List.any_append, List.any_map, List.any_flatMap,
    Bool.or_eq_true, List.any_eq_true, List.mem_map, Function.comp_apply, beq_iff_eq,
    MessageBlock.declaration]

/-- An enumeration is visible exactly if one of the `importedFiles` declares it. -/
theorem enum?_visible_isSome_iff (name : String) : (document.visible.enum? name).isSome = true ↔
    ∃ f ∈ document.importedFiles, name ∈ f.declarations.enums.map EnumDeclaration.name := by
  simp only [Visible.enum?, visible, List.find?_isSome, List.mem_flatMap, List.mem_map, beq_iff_eq]
  constructor
  · rintro ⟨e, ⟨f, hf, he⟩, rfl⟩
    exact ⟨f, hf, e, he, rfl⟩
  · rintro ⟨f, hf, e, he, rfl⟩
    exact ⟨e, ⟨f, hf, he⟩, rfl⟩

/-- The name of a visible message or enumeration is that of a block or a bundled name. -/
theorem visible_cases (hi : document.IsImporting) {name : String}
    (h : (document.visible.isMessage name || (document.visible.enum? name).isSome) = true) :
    name ∈ document.messages.map (fun b => b.name.text) ∨ ∃ short, name = Bundled.fullName short := by
  rw [Bool.or_eq_true, isMessage_visible_iff, enum?_visible_isSome_iff] at h
  rcases h with (h | ⟨f, hf, h⟩) | ⟨f, hf, h⟩
  · exact .inl h
  · obtain ⟨m, hm, rfl⟩ := List.mem_map.mp h
    exact .inr ((Bundled.declarations_spec f ((mem_importedFiles_iff hi).mp hf).1).2.2.2.1 m hm)
  · obtain ⟨e, he, rfl⟩ := List.mem_map.mp h
    exact .inr ((Bundled.declarations_spec f ((mem_importedFiles_iff hi).mp hf).1).2.2.2.2 e he).1

/-- No message or enumeration in the scope of a block is visible. -/
theorem not_visible_within (hw : document.IsWellFormed) {b : MessageBlock} (hb : b ∈ document.messages)
    (x : String) : (document.visible.isMessage (b.name.text ++ "." ++ x)
      || (document.visible.enum? (b.name.text ++ "." ++ x)).isSome) = false := by
  rw [← Bool.not_eq_true]
  intro h
  rcases visible_cases hw.toIsImporting h with hmem | ⟨short, hshort⟩
  · obtain ⟨b', -, heq⟩ := List.mem_map.mp hmem
    exact append_point_ne b'.name.isIdentifier_text heq.symm
  · obtain ⟨stem, hstem⟩ := hw.names_suffix b hb
    have hid := b.name.isIdentifier_text
    rw [hstem] at hid hshort
    exact Bundled.fullName_ne_append hid hshort.symm

/-! ## Resolution -/

/-- The scopes around an identifier are itself and the outermost one. -/
theorem enclosingScopes_eq {name : String} (h : isIdentifier name = true) :
    enclosingScopes name = [name, ""] := by
  unfold enclosingScopes
  rw [List.splitOn_eq_singleton (point_not_mem_of_isIdentifier h), isEmpty_eq_false_of_isIdentifier h]
  simp

/-- In the scope of a block, the name of a block resolves to itself. -/
theorem resolve?_identifier (hw : document.IsWellFormed) {b b' : MessageBlock}
    (hb : b ∈ document.messages) (hb' : b' ∈ document.messages) :
    document.visible.resolve?
      (fun n => document.visible.isMessage n || (document.visible.enum? n).isSome) b.name.text
      b'.name.text = some b'.name.text := by
  have hscope := b.name.isIdentifier_text
  have hpath := b'.name.isIdentifier_text
  have hmeant : (document.visible.isMessage b'.name.text ||
      (document.visible.enum? b'.name.text).isSome) = true := by
    rw [Bool.or_eq_true, isMessage_visible_iff]
    exact .inl (.inl (List.mem_map_of_mem (f := fun b : MessageBlock => b.name.text) hb'))
  have hempty := isEmpty_eq_false_of_isIdentifier hscope
  have hnil : b'.name.text.toList ≠ [] := by
    intro h
    unfold isIdentifier at hpath
    rw [h] at hpath
    cases hpath
  unfold Visible.resolve?
  rw [List.splitOn_eq_singleton (point_not_mem_of_isIdentifier hpath), enclosingScopes_eq hscope]
  cases hcs : b'.name.text.toList with
  | nil => exact absurd hcs hnil
  | cons c cs =>
    have hwithin := not_visible_within hw hb b'.name.text
    simp only [List.map_cons, List.map_nil, qualified, hempty, Bool.false_eq_true, if_false]
    rw [List.find?_cons_of_neg (by simpa using hwithin)]
    exact List.find?_cons_of_pos hmeant

/-- If a bundled name is visible, `google` is a scope. -/
theorem isScope_google (hw : document.IsWellFormed) {short : String}
    (h : (document.visible.isMessage (Bundled.fullName short) ||
      (document.visible.enum? (Bundled.fullName short)).isSome) = true) :
    document.visible.isScope "google" = true := by
  have hfile : ∃ f, f ∈ document.importedFiles := by
    rw [Bool.or_eq_true, isMessage_visible_iff, enum?_visible_isSome_iff] at h
    rcases h with (h | ⟨f, hf, -⟩) | ⟨f, hf, -⟩
    · obtain ⟨b, -, heq⟩ := List.mem_map.mp h
      exact absurd heq.symm (Bundled.fullName_ne b.name.isIdentifier_text)
    · exact ⟨f, hf⟩
    · exact ⟨f, hf⟩
  obtain ⟨f, hf⟩ := hfile
  have hpackage := (Bundled.declarations_spec f ((mem_importedFiles_iff hw.toIsImporting).mp hf).1).1
  have hmem : "google" ∈ document.visible.packages := by
    apply List.mem_flatMap.mpr
    refine ⟨f, hf, ?_⟩
    rw [hpackage, packageNames_package]
    decide
  simp [Visible.isScope, hmem]

/-- In the scope of a block, `google` is no scope. -/
theorem not_isScope_within (hw : document.IsWellFormed) {b : MessageBlock} (hb : b ∈ document.messages) :
    document.visible.isScope (b.name.text ++ "." ++ "google") = false := by
  have hscope := b.name.isIdentifier_text
  have hnot := not_visible_within hw hb "google"
  rw [Bool.or_eq_false_iff] at hnot
  have hpackages : b.name.text ++ "." ++ "google" ∉ document.visible.packages := by
    intro hmem
    obtain ⟨f, hf, hp⟩ := List.mem_flatMap.mp hmem
    obtain ⟨stem, hstem⟩ := hw.names_suffix b hb
    rcases mem_packageNames_bundled ((mem_importedFiles_iff hw.toIsImporting).mp hf).1 hp with hp | hp
    · have hfirst := (append_point_inj (point_not_mem_of_isIdentifier hscope) (by decide) hp).1
      rw [hstem] at hfirst
      exact append_messageSuffix_ne (by decide) hfirst
    · exact append_point_ne (by decide) hp
  simp only [Visible.isScope, Bool.or_eq_false_iff]
  exact ⟨⟨⟨by simpa using hpackages, hnot.1⟩, hnot.2⟩, rfl⟩

/-- In the scope of a block, a visible bundled name resolves to itself. -/
theorem resolve?_fullName (hw : document.IsWellFormed) {b : MessageBlock} (hb : b ∈ document.messages)
    {short : String} (hmeant : (document.visible.isMessage (Bundled.fullName short) ||
      (document.visible.enum? (Bundled.fullName short)).isSome) = true) :
    document.visible.resolve?
      (fun n => document.visible.isMessage n || (document.visible.enum? n).isSome) b.name.text
      (Bundled.fullName short) = some (Bundled.fullName short) := by
  have hscope := b.name.isIdentifier_text
  have hempty := isEmpty_eq_false_of_isIdentifier hscope
  have hsplit : (Bundled.fullName short).toList.splitOn '.' =
      "google".toList :: "protobuf".toList :: short.toList.splitOn '.' := by
    have hlist : (Bundled.fullName short).toList =
        "google".toList ++ '.' :: ("protobuf".toList ++ '.' :: short.toList) := by
      rw [fullName_eq]
      simp
    rw [hlist, List.splitOn_append_cons_self, List.splitOn_append_cons_self]
    rfl
  -- The first step is not known within the message, so that the outermost scope settles the name.
  have hhome : [b.name.text, ""].find?
      (fun s => document.visible.isScope (qualified s (String.ofList "google".toList))) = some "" := by
    rw [List.find?_cons_of_neg, List.find?_cons_of_pos]
    · simpa [qualified] using isScope_google hw hmeant
    · simpa [qualified, hempty] using not_isScope_within hw hb
  unfold Visible.resolve?
  rw [hsplit, enclosingScopes_eq hscope]
  show ([b.name.text, ""].find? (fun s =>
    document.visible.isScope (qualified s (String.ofList "google".toList)))).bind _ = _
  rw [hhome, Option.bind_some]
  exact if_pos hmeant

end SchemaDocument

end Tagwire
