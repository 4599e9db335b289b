import Tagwire.Proofs.Schema.Compiled
import Tagwire.Proofs.Schema.Lines

/-!
# The document of a compilation

A compilation imports what the fields of its messages need and nothing else, each path once and in the order
of the first field that needs it.  The text of the document has one line for each import, and it is the text
of that document only: two compilations with one text, and so with one fingerprint, have the same imports
and the same messages.
-/

set_option autoImplicit false

namespace Tagwire

/-! ## Imports -/

namespace SchemaField

/-- The type of the field is the full name of a well-known type that the document under `path` declares. -/
def Needs (field : SchemaField) (path : String) : Prop :=
  ∃ kind : WellKnown, field.typeName = kind.typeName ∧ kind.importPath = path

/-- The path that the type of the field needs, if it is well known. -/
def neededPath? (field : SchemaField) : Option String :=
  (WellKnown.ofTypeName? field.typeName).map WellKnown.importPath

/-- `neededPath?` gives the path that a field needs. -/
theorem needs_iff {field : SchemaField} {path : String} :
    field.Needs path ↔ field.neededPath? = some path := by
  unfold Needs neededPath?
  rw [Option.map_eq_some_iff]
  constructor
  · rintro ⟨kind, htype, hpath⟩
    exact ⟨kind, htype ▸ WellKnown.ofTypeName?_typeName kind, hpath⟩
  · rintro ⟨kind, htype, hpath⟩
    have hname : kind.typeName = field.typeName := by simpa using List.find?_some htype
    exact ⟨kind, hname.symm, hpath⟩

/-- Whether a field needs a path is seen from its type. -/
instance (field : SchemaField) (path : String) : Decidable (field.Needs path) :=
  decidable_of_iff _ needs_iff.symm

end SchemaField

/-- Does the line begin with `import`? -/
def isImportLine (line : List Char) : Bool := "import".toList.isPrefixOf line

namespace SchemaDocument

/-- How many fields stand before the first one that needs `path`, over all blocks in order. -/
def firstNeed (document : SchemaDocument) (path : String) : Nat :=
  document.fields.findIdx fun f => decide (f.Needs path)

/-- The document imports each path that a field needs once, in the order of `firstNeed`, and its text has an
`import` line for each. -/
structure ImportsByNeed (document : SchemaDocument) : Prop where
  nodup : document.imports.Nodup
  needed : ∀ path, path ∈ document.imports ↔ ∃ block ∈ document.messages, ∃ f ∈ block.fields, f.Needs path
  ordered : document.imports.Pairwise fun path other => document.firstNeed path < document.firstNeed other
  lines : (textLines document.text).filter isImportLine =
    document.imports.map fun path => ("import \"" ++ path ++ "\";").toList

/-- The lines of the text that begin with `import` are those of the imports, in order. -/
theorem filter_isImportLine_lines (document : SchemaDocument) :
    document.lines.filter isImportLine = document.imports.map importChars := by
  have himports : (document.imports.map importChars).filter isImportLine =
      document.imports.map importChars := by
    rw [List.filter_eq_self]
    intro line hline
    obtain ⟨path, -, rfl⟩ := List.mem_map.mp hline
    simp [importChars, isImportLine]
  have hblocks : (document.messages.flatMap MessageBlock.lines).filter isImportLine = [] := by
    rw [List.filter_eq_nil_iff]
    intro line hline
    obtain ⟨block, -, hline⟩ := List.mem_flatMap.mp hline
    simp only [MessageBlock.lines, List.mem_cons, List.mem_append, List.not_mem_nil, or_false,
      List.mem_map] at hline
    rcases hline with rfl | ⟨f, -, rfl⟩ | rfl | rfl
    · simp [MessageBlock.opening, isImportLine]
    · simp [SchemaField.lineChars, isImportLine]
    · decide
    · decide
  have hheader : isImportLine header.toList = false := by decide
  have hempty : isImportLine [] = false := by decide
  rw [lines, List.filter_cons_of_neg (by simp [hheader]), List.filter_cons_of_neg (by simp [hempty]),
    List.filter_append, List.filter_cons_of_neg (by simp [hempty]), himports, hblocks, List.append_nil]

end SchemaDocument

namespace Compilation

/-- `findIdx` in a longer list is the same, where it finds something in the shorter one. -/
theorem findIdx_append_of_lt {α : Type} {p : α → Bool} {l more : List α} (h : l.findIdx p < l.length) :
    (l ++ more).findIdx p = l.findIdx p := by
  rw [List.findIdx_append, if_pos h]

/-- A fold of `addImport` gives paths in the order in which something first asks for them. -/
theorem pairwise_foldl_addImport {α : Type} (path? : α → Option String) (l : List α) :
    ((l.filterMap path?).foldl addImport []).Pairwise fun path other =>
      l.findIdx (path? · == some path) < l.findIdx (path? · == some other) := by
  induction l using List.reverseRecOn with
  | nil => exact List.Pairwise.nil
  | append_singleton l a ih =>
    -- What has been added was asked for before, and so keeps its place.
    have hfound : ∀ path ∈ (l.filterMap path?).foldl addImport [],
        l.findIdx (path? · == some path) < l.length := by
      intro path hpath
      obtain ⟨b, hb, hasked⟩ := List.mem_filterMap.mp
        ((((foldl_addImport_spec (l.filterMap path?) List.nodup_nil).2 path).mp hpath).resolve_left (by simp))
      exact List.findIdx_lt_length_of_exists ⟨b, hb, by simp [hasked]⟩
    have hkept : ((l.filterMap path?).foldl addImport []).Pairwise fun path other =>
        (l ++ [a]).findIdx (path? · == some path) < (l ++ [a]).findIdx (path? · == some other) := by
      refine ih.imp_of_mem fun {path other} hpath hother hlt => ?_
      rw [findIdx_append_of_lt (hfound path hpath), findIdx_append_of_lt (hfound other hother)]
      exact hlt
    rw [List.filterMap_append, List.foldl_append]
    cases hp : path? a with
    | none => simpa [hp] using hkept
    | some p =>
      rw [List.filterMap_cons_some hp, List.filterMap_nil, List.foldl_cons, List.foldl_nil, addImport]
      by_cases hmem : p ∈ (l.filterMap path?).foldl addImport []
      · rwa [if_pos (by simpa using hmem)]
      · rw [if_neg (by simpa using hmem)]
        have hnew : l.findIdx (path? · == some p) = l.length := by
          rw [List.findIdx_eq_length]
          intro b hb
          have hne : path? b ≠ some p := fun hasked => hmem
            (((foldl_addImport_spec (l.filterMap path?) List.nodup_nil).2 p).mpr
              (.inr (List.mem_filterMap.mpr ⟨b, hb, hasked⟩)))
          simpa using hne
        refine List.pairwise_append.mpr ⟨hkept, List.pairwise_singleton _ _, fun path hpath other hother => ?_⟩
        rw [List.mem_singleton] at hother
        subst hother
        rw [findIdx_append_of_lt (hfound path hpath), List.findIdx_append, hnew, if_neg (lt_irrefl _)]
        exact Nat.lt_of_lt_of_le (hfound path hpath) (Nat.le_add_left _ _)

variable {catalog : Catalog} {messages : List Message}

/-- The lines of declared fields need what `importPath?` of their kinds says. -/
theorem filterMap_neededPath?_layFields {ds : List Declaration} (h : ∀ d ∈ ds, catalog.IsDeclared d)
    (number : Nat) :
    ((catalog.layFields number ds).map RegisteredField.line).filterMap SchemaField.neededPath? =
      ds.filterMap fun d => d.field.kind.importPath? := by
  induction ds generalizing number with
  | nil => rfl
  | cons d rest ih =>
    have hfirst : (catalog.layField number d).line.neededPath? = d.field.kind.importPath? := by
      show (WellKnown.ofTypeName? (catalog.typeName d.field.kind)).map WellKnown.importPath = _
      cases hk : d.field.kind with
      | scalar kind =>
        show (WellKnown.ofTypeName? kind.keyword).map _ = none
        rw [ofTypeName?_identifier (isIdentifier_keyword kind)]
        rfl
      | wellKnown kind =>
        show (WellKnown.ofTypeName? kind.typeName).map _ = some kind.importPath
        rw [WellKnown.ofTypeName?_typeName]
        rfl
      | record target =>
        obtain ⟨e, -, hname⟩ := Catalog.exists_messageName_eq
          ((h d List.mem_cons_self).target target hk)
        show (WellKnown.ofTypeName? (catalog.messageName target)).map _ = none
        rw [hname, ofTypeName?_identifier e.name.isIdentifier_text]
        rfl
    rw [Catalog.layFields, List.map_cons, List.filterMap_cons, List.filterMap_cons, hfirst,
      ih fun d' hd' => h d' (List.mem_cons_of_mem _ hd')]

/-- The lines of a block need what `importPaths` of its message says. -/
theorem IsMessage.filterMap_neededPath? {e : CatalogEntry} {message : Message}
    (h : IsMessage catalog e message) (hc : catalog.IsChecked) (he : e ∈ catalog) :
    message.block.fields.filterMap SchemaField.neededPath? = message.importPaths := by
  have htag : RegisteredField.typeTag.line.neededPath? = none := by
    show (WellKnown.ofTypeName? Scalar.string.keyword).map _ = none
    rw [ofTypeName?_identifier (isIdentifier_keyword .string)]
    rfl
  have hdeclared := hc.isDeclared (List.mem_map_of_mem he)
  rw [← h.declarations] at hdeclared
  show (message.fields.map RegisteredField.line).filterMap _ = _
  rw [h.fields, Catalog.layout, List.map_cons, List.filterMap_cons_none htag,
    filterMap_neededPath?_layFields hdeclared, Message.importPaths]

/-- The imports of the document are what its fields need, added in turn by `addImport`. -/
theorem imports_schemaOf (hc : catalog.IsChecked)
    (hm : List.Forall₂ (IsMessage catalog) catalog messages) :
    (schemaOf messages).document.imports =
      ((schemaOf messages).document.fields.filterMap SchemaField.neededPath?).foldl addImport [] := by
  have hpaths : ((schemaOf messages).document.fields.filterMap SchemaField.neededPath?) =
      messages.flatMap Message.importPaths := by
    show ((messages.map Message.block).flatMap MessageBlock.fields).filterMap _ = _
    rw [List.flatMap_map, List.filterMap_flatMap]
    refine List.flatMap_congr fun message hmem => ?_
    obtain ⟨e, he, h⟩ := exists_of_forall₂ hm.flip hmem
    exact h.filterMap_neededPath? hc he
  rw [hpaths]
  rfl

/-- The document that `compile` gives imports exactly the paths that the types of its fields need, each once, in
the order in which fields need them first, and its text has one import line for each (`ImportsByNeed`). -/
theorem importsByNeed_of_compile {definitions : List RecordDefinition} {compiled : CompiledSchema}
    (h : compile definitions = .ok compiled) : compiled.document.ImportsByNeed := by
  have hplain := (isSound_of_compile h).toIsWellFormed.isPlain
  obtain ⟨catalog, -, hc, messages, hmessages, hcompiled⟩ := (compile_eq_ok_iff _ _).mp h
  have hm : List.Forall₂ (IsMessage catalog) catalog messages :=
    hmessages.imp fun _ _ => isMessage_of_messageOf
  have himports : compiled.document.imports =
      (compiled.document.fields.filterMap SchemaField.neededPath?).foldl addImport [] :=
    hcompiled ▸ imports_schemaOf hc hm
  obtain ⟨hnodup, hmem⟩ :=
    foldl_addImport_spec (compiled.document.fields.filterMap SchemaField.neededPath?) List.nodup_nil
  constructor
  case nodup => rwa [himports]
  case needed =>
    intro path
    rw [himports, hmem, List.mem_filterMap]
    simp only [List.not_mem_nil, false_or, SchemaDocument.fields, List.mem_flatMap, SchemaField.needs_iff]
    constructor
    · rintro ⟨f, ⟨block, hblock, hf⟩, hpath⟩
      exact ⟨block, hblock, f, hf, hpath⟩
    · rintro ⟨block, hblock, f, hf, hpath⟩
      exact ⟨f, ⟨block, hblock, hf⟩, hpath⟩
  case ordered =>
    have hneed : ∀ path, (fun f : SchemaField => decide (f.Needs path)) =
        fun f => f.neededPath? == some path := by
      intro path
      funext f
      rw [beq_eq_decide]
      exact decide_eq_decide.mpr SchemaField.needs_iff
    rw [himports]
    simp only [SchemaDocument.firstNeed, hneed]
    exact pairwise_foldl_addImport _ _
  case lines =>
    have hend : isImportLine [] = false := by decide
    rw [SchemaDocument.textLines_text hplain, List.filter_append, SchemaDocument.filter_isImportLine_lines,
      List.filter_cons_of_neg (by simp [hend]), List.filter_nil, List.append_nil]
    rfl

/-- The definitions `Visit`, `Log` and `Event`: a visit is an event with a note, a log has details of any type,
and an event has a moment and a number. -/
def visitDefinitions : List RecordDefinition :=
  [{ id := "Visit", parent := some "Event", fields := [("note", { kind := .wellKnown .stringValue })] },
   { id := "Log", fields := [("details", { kind := .wellKnown .any, repeated := true }),
       ("ended", { kind := .wellKnown .timestamp })] },
   { id := "Event", fields := [("label", { kind := .scalar .string }), ("at", { kind := .wellKnown .timestamp }),
       ("count", { kind := .wellKnown .int64Value })] }]

/-- `visitDefinitions` lists a visit before the event that it descends from.  The inherited moment is needed
first, then the number and the note, both declared in `wrappers.proto`, and last the details of the log, in
`any.proto`. -/
theorem importsByNeed_visitDefinitions : ∃ compiled, compile visitDefinitions = .ok compiled ∧
    compiled.document.ImportsByNeed ∧ compiled.document.imports =
      ["google/protobuf/timestamp.proto", "google/protobuf/wrappers.proto", "google/protobuf/any.proto"] := by
  have himports : ((compile visitDefinitions).toOption.map fun compiled => compiled.document.imports) =
      some ["google/protobuf/timestamp.proto", "google/protobuf/wrappers.proto",
        "google/protobuf/any.proto"] := by decide +kernel
  obtain ⟨compiled, hcompiled, himports⟩ := Option.map_eq_some_iff.mp himports
  have h := toOption_eq_some_iff.mp hcompiled
  exact ⟨compiled, h, importsByNeed_of_compile h, himports⟩

/-! ## Texts -/

/-- If two compilations render one text, then their documents have the same imports and the same messages, in
the same order and with the same names, types, numbers and labels of fields: `SchemaDocument.text` is injective
on what `compile` gives. -/
theorem document_eq_of_text_eq {definitions others : List RecordDefinition}
    {compiled otherCompiled : CompiledSchema} (h : compile definitions = .ok compiled)
    (hother : compile others = .ok otherCompiled)
    (htext : compiled.document.text = otherCompiled.document.text) :
    compiled.document.imports = otherCompiled.document.imports ∧
      compiled.document.messages = otherCompiled.document.messages := by
  have hplain := (isSound_of_compile h).toIsWellFormed.isPlain
  have hotherPlain := (isSound_of_compile hother).toIsWellFormed.isPlain
  have hsame := hplain.text_inj hotherPlain htext
  exact ⟨congrArg SchemaDocument.imports hsame, congrArg SchemaDocument.messages hsame⟩

/-- The definitions of a note with the identity `id` and of a list of notes. -/
def noteDefinitions (id : RecordId) : List RecordDefinition :=
  [{ id := id, fields := [("sentAt", { kind := .wellKnown .timestamp })] },
   { id := "Notes", fields := [("repeatedNotes", { kind := .record id, repeated := true }),
       ("latest", { kind := .record id })] }]

/-- The identities `Note` and `NoteSchemaDefinition` give the same message name, and their compilations the same
text and document. -/
theorem document_eq_noteDefinitions : ∃ compiled otherCompiled,
    compile (noteDefinitions "Note") = .ok compiled ∧
      compile (noteDefinitions "NoteSchemaDefinition") = .ok otherCompiled ∧
      compiled.document.text = otherCompiled.document.text ∧
      compiled.document.imports = otherCompiled.document.imports ∧
      compiled.document.messages = otherCompiled.document.messages := by
  have hcompiles : (compile (noteDefinitions "Note")).toOption.isSome = true := by decide +kernel
  have hotherCompiles : (compile (noteDefinitions "NoteSchemaDefinition")).toOption.isSome = true := by
    decide +kernel
  have htexts : (compile (noteDefinitions "Note")).toOption.map (fun compiled => compiled.document.text) =
      (compile (noteDefinitions "NoteSchemaDefinition")).toOption.map
        fun compiled => compiled.document.text := by decide +kernel
  obtain ⟨compiled, hcompiled⟩ := Option.isSome_iff_exists.mp hcompiles
  obtain ⟨otherCompiled, hotherCompiled⟩ := Option.isSome_iff_exists.mp hotherCompiles
  rw [hcompiled, hotherCompiled, Option.map_some, Option.map_some, Option.some.injEq] at htexts
  have h := toOption_eq_some_iff.mp hcompiled
  have hother := toOption_eq_some_iff.mp hotherCompiled
  exact ⟨compiled, otherCompiled, h, hother, htexts, document_eq_of_text_eq h hother htexts⟩

end Compilation

end Tagwire
