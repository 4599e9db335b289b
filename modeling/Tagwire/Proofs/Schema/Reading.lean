import Tagwire.Proofs.Schema.Statements
import Tagwire.Schema.Loading

/-!
# Reading a rendered document

The statements of a document declare one message for each of its blocks, with one field for each of its
lines, and import its paths.  All that can be wrong with them is a field number beyond the greatest one,
as long as no type begins with a word that begins another statement.
-/

set_option autoImplicit false

namespace Tagwire

open Schema

/-! ## What a document declares -/

/-- The reference that the type name of a line stands for: a scalar for a keyword, and the name otherwise. -/
def typeReference (typeName : String) : TypeReference :=
  match Scalar.ofKeyword? typeName with
  | some kind => .scalar kind
  | none => .named typeName

/-- The words that begin another statement than a field without a label. -/
def leadingWords : List String :=
  ["option", "reserved", "extensions", "optional", "required", "repeated"]

namespace SchemaField

/-- The field that a line declares. -/
def declaration (field : SchemaField) : FieldDeclaration :=
  { name := field.name, number := field.number, type := typeReference field.typeName
    shape := if field.repeated then .list else .single
    label := if field.repeated then some .repeated else none }

/-- The line is plain, and the first word of its type is none of the `leadingWords`. -/
structure IsReadable (field : SchemaField) : Prop extends field.IsPlain where
  lead : ∀ w ∈ (pathWords field.typeName).head?, w ∉ leadingWords

end SchemaField

namespace MessageBlock

/-- The message that a block declares. -/
def declaration (block : MessageBlock) : MessageDeclaration :=
  { name := block.name.text, fields := block.fields.map SchemaField.declaration }

end MessageBlock

namespace SchemaDocument

/-- The file that the text of a document is read as. -/
def file (document : SchemaDocument) : SchemaFile :=
  { path := inlineDocumentName
    imports := document.imports.map fun path => ⟨path, false⟩
    declarations := { messages := document.messages.map MessageBlock.declaration } }

end SchemaDocument

/-! ## Words of a name -/

/-- A name is its `pathWords` with points between them. -/
theorem toList_eq_intercalate_pathWords (name : String) :
    name.toList = ['.'].intercalate ((pathWords name).map String.toList) := by
  simp [pathWords, Function.comp_def, List.intercalate_splitOn]

/-- An identifier has no character that cannot continue one. -/
theorem not_mem_of_isIdentifier {name : String} {c : Char} (hc : isIdentifierRest c = false)
    (h : isIdentifier name = true) : c ∉ name.toList := by
  intro hmem
  unfold isIdentifier at h
  cases hcs : name.toList with
  | nil => simp [hcs] at hmem
  | cons d cs =>
    rw [hcs, isIdentifierChars, Bool.and_eq_true, List.all_eq_true] at h
    rw [hcs] at hmem
    rcases List.mem_cons.mp hmem with rfl | hmem
    · unfold isIdentifierStart isIdentifierRest at *
      simp_all [Char.isAlphanum]
    · rw [h.2 c hmem] at hc
      cases hc

/-- An identifier has no point. -/
theorem point_not_mem_of_isIdentifier {name : String} (h : isIdentifier name = true) :
    '.' ∉ name.toList :=
  not_mem_of_isIdentifier (by decide) h

/-- An identifier is not empty. -/
theorem isEmpty_eq_false_of_isIdentifier {name : String} (h : isIdentifier name = true) :
    name.isEmpty = false := by
  rw [Bool.eq_false_iff, ne_eq, String.isEmpty_iff]
  rintro rfl
  cases h

/-- The only one of the `pathWords` of an identifier is itself. -/
theorem pathWords_of_isIdentifier {name : String} (h : isIdentifier name = true) :
    pathWords name = [name] := by
  rw [pathWords, List.splitOn_eq_singleton (point_not_mem_of_isIdentifier h)]
  simp

/-- The keyword of each scalar is an identifier. -/
theorem isIdentifier_keyword (kind : Scalar) : isIdentifier kind.keyword = true := by
  cases kind <;> decide

/-- A name for which `ofKeyword?` gives a scalar is its keyword. -/
theorem eq_keyword_of_ofKeyword? {name : String} {kind : Scalar}
    (h : Scalar.ofKeyword? name = some kind) : name = kind.keyword := by
  unfold Scalar.ofKeyword? at h
  have hkeyword := List.find?_some h
  simp only [beq_iff_eq] at hkeyword
  exact hkeyword.symm

/-- For the keyword of a scalar `ofKeyword?` gives this scalar. -/
theorem ofKeyword?_keyword (kind : Scalar) : Scalar.ofKeyword? kind.keyword = some kind := by
  cases kind <;> decide

namespace Schema

/-! ## Types -/

/-- The tokens of words: the first one, and each other behind a point. -/
theorem pathTokens_cons (w : String) (ws : List String) :
    pathTokens (w :: ws) = .word w :: ws.flatMap fun v => [.mark '.', .word v] := by
  induction ws generalizing w with
  | nil => rfl
  | cons v vs ih =>
    rw [pathTokens, ih]
    · rfl
    · simp

/-- Of words behind points, `readPathRest` puts all together, and stops at a word without a point. -/
theorem readPathRest_eq (read : String) (ws : List String) (n : String) (rest : List Token) :
    readPathRest read ((ws.flatMap fun v => [.mark '.', .word v]) ++ .word n :: rest) =
      (ws.foldl (fun path v => path ++ "." ++ v) read, .word n :: rest) := by
  induction ws generalizing read with
  | nil => rfl
  | cons v vs ih => exact ih (read ++ "." ++ v)

/-- The first of the `pathWords` of a name, with the others put behind points, is the name. -/
theorem foldl_path_eq {name w : String} {ws : List String} (h : pathWords name = w :: ws) :
    ws.foldl (fun path v => path ++ "." ++ v) w = name := by
  have hfold : ∀ read : String, (ws.foldl (fun path v => path ++ "." ++ v) read).toList =
      read.toList ++ ws.flatMap fun v => '.' :: v.toList := by
    clear h
    induction ws with
    | nil => simp
    | cons v vs ih =>
      intro read
      rw [List.foldl_cons, ih]
      simp
  have hjoin : ∀ cs : List Char, ['.'].intercalate (cs :: ws.map String.toList) =
      cs ++ ws.flatMap fun v => '.' :: v.toList := by
    clear h hfold
    induction ws with
    | nil => simp
    | cons v vs ih =>
      intro cs
      rw [List.map_cons, List.intercalate_cons_cons, ih]
      simp
  rw [← String.toList_inj, hfold, toList_eq_intercalate_pathWords name, h, List.map_cons, hjoin]

/-- From the tokens of a type name, `readType?` reads its `typeReference`. -/
theorem readType?_eq (typeName n : String) (rest : List Token) :
    readType? (pathTokens (pathWords typeName) ++ .word n :: rest) =
      some (typeReference typeName, .word n :: rest) := by
  cases hws : pathWords typeName with
  | nil => simp [pathWords, List.splitOn_ne_nil] at hws
  | cons w ws =>
    have hpath := readPathRest_eq w ws n rest
    rw [foldl_path_eq hws] at hpath
    rw [pathTokens_cons, List.cons_append]
    have hnamed : readTypePath? (.word w :: ((ws.flatMap fun v => [.mark '.', .word v])
        ++ .word n :: rest)) = some (typeName, .word n :: rest) := by
      rw [readTypePath?, readPath?, hpath]
      simp
    cases ws with
    | nil =>
      have hname : w = typeName := foldl_path_eq hws
      subst hname
      unfold typeReference
      cases hk : Scalar.ofKeyword? w with
      | none =>
        rw [List.flatMap_nil, List.nil_append] at hnamed
        simp [readType?, hk, hnamed]
      | some kind => simp [readType?, hk]
    | cons v vs =>
      have hkeyword : Scalar.ofKeyword? typeName = none := by
        by_contra hsome
        obtain ⟨kind, hk⟩ := Option.ne_none_iff_exists'.mp hsome
        rw [eq_keyword_of_ofKeyword? hk, pathWords_of_isIdentifier (isIdentifier_keyword kind)] at hws
        simp at hws
      rw [List.flatMap_cons, List.append_assoc] at hnamed
      simp only [List.cons_append, List.nil_append] at hnamed
      simp [typeReference, hkeyword, readType?, hnamed]

/-! ## Fields -/

/-- From the name and the number of a line, `readFieldRest?` reads both if the number is below `2 ^ 29`. -/
theorem readFieldRest?_eq (name : String) {number : Nat} (hn : 0 < number) :
    readFieldRest? [.word name, .mark '=', .natural number] =
      if number < 2 ^ 29 then some (name, number, []) else none := by
  have hcontains : fieldNumbers.contains number = decide (number < 2 ^ 29) := by
    unfold fieldNumbers NumberRange.contains
    dsimp only
    rw [Bool.eq_iff_iff, Bool.and_eq_true, decide_eq_true_eq, decide_eq_true_eq, decide_eq_true_eq]
    omega
  simp [readFieldRest?, readBracketed?, hcontains]

/-- From the tokens of a readable line, `readLabel` reads its label and leaves the others. -/
theorem readLabel_tokens {field : SchemaField} (hf : field.IsReadable) :
    readLabel field.tokens = (field.declaration.label,
      pathTokens (pathWords field.typeName) ++ [.word field.name, .mark '=', .natural field.number]) := by
  unfold SchemaField.tokens SchemaField.declaration
  cases hr : field.repeated with
  | true => rfl
  | false =>
    cases hws : pathWords field.typeName with
    | nil => simp [pathWords, List.splitOn_ne_nil] at hws
    | cons w ws =>
      have hlead := hf.lead w (by simp [hws])
      simp only [leadingWords, List.mem_cons, List.not_mem_nil, not_or] at hlead
      rw [pathTokens_cons]
      simp [readLabel, hlead]

/-- From the tokens of a readable line, `readPlainField?` reads its declaration exactly if the number is below
`2 ^ 29`. -/
theorem readPlainField?_tokens {field : SchemaField} (hf : field.IsReadable) (scope : String)
    (result : Members) :
    readPlainField? .proto3 scope .message field.tokens = some result ↔
      field.number < 2 ^ 29 ∧ result = { fields := [field.declaration] } := by
  unfold readPlainField?
  rw [readLabel_tokens hf]
  simp only [readType?_eq, Option.bind_eq_bind, Option.bind_some, readFieldRest?_eq _ hf.number]
  by_cases hn : field.number < 2 ^ 29
  · rw [if_pos hn, Option.bind_some]
    have hmembers : result = { fields := [field.declaration] } ↔
        { fields := [field.declaration] } = result := eq_comm
    rw [and_iff_right hn, hmembers, SchemaField.declaration]
    cases field.repeated <;>
      simp [FieldContext.admits, FieldContext.oneof?, fieldMembers]
  · rw [if_neg hn, Option.bind_none]
    exact iff_of_false (by simp) fun h => hn h.1

/-- From the tokens of a readable line, `readPlainMember?` reads its declaration exactly if the number is below
`2 ^ 29`. -/
theorem readPlainMember?_tokens {field : SchemaField} (hf : field.IsReadable) (scope : String)
    (result : Members) :
    readPlainMember? .proto3 scope .message field.tokens = some result ↔
      field.number < 2 ^ 29 ∧ result = { fields := [field.declaration] } := by
  rw [← readPlainField?_tokens hf scope]
  have htokens : ∃ w rest, field.tokens = .word w :: rest ∧
      (w ∉ leadingWords ∨ w = "repeated") ∧ ∀ more, rest ≠ .mark '<' :: more := by
    unfold SchemaField.tokens
    cases hws : pathWords field.typeName with
    | nil => simp [pathWords, List.splitOn_ne_nil] at hws
    | cons w ws =>
      rw [pathTokens_cons]
      cases field.repeated with
      | true => exact ⟨"repeated", _, rfl, .inr rfl, by simp⟩
      | false =>
        refine ⟨w, _, rfl, .inl (hf.lead w (by simp [hws])), ?_⟩
        cases ws <;> simp
  obtain ⟨w, rest, htokens, hw, hrest⟩ := htokens
  have hne : w ≠ "option" ∧ w ≠ "reserved" ∧ w ≠ "extensions" := by
    rcases hw with hw | rfl
    · simp only [leadingWords, List.mem_cons, List.not_mem_nil, not_or] at hw
      exact ⟨hw.1, hw.2.1, hw.2.2.1⟩
    · decide
  have hfield : readField? .proto3 scope .message field.tokens =
      readPlainField? .proto3 scope .message field.tokens := by
    rw [htokens, readField?]
    intro more heq
    exact hrest more (List.cons.inj heq).2
  rw [← hfield, htokens, readPlainMember?]
  all_goals simp [hne]

/-! ## Messages -/

/-- From readable lines, `readMembers?` reads their declarations exactly if the numbers are below `2 ^ 29`. -/
theorem readMembers?_eq {fields : List SchemaField} (hf : ∀ f ∈ fields, f.IsReadable)
    (scope : String) (result : Members) :
    readMembers? .proto3 scope .message (fields.map fun f => .plain f.tokens) = some result ↔
      (∀ f ∈ fields, f.number < 2 ^ 29) ∧
        result = { fields := fields.map SchemaField.declaration } := by
  induction fields generalizing result with
  | nil => simp [readMembers?, eq_comm]
  | cons f fields ih =>
    rw [List.map_cons, readMembers?]
    simp only [Option.bind_eq_bind, Option.bind_eq_some_iff, Option.pure_def, Option.some.injEq,
      readPlainMember?_tokens (hf f (by simp)), ih fun f' hf' => hf f' (by simp [hf'])]
    simp only [List.forall_mem_cons]
    constructor
    · rintro ⟨_, ⟨hn, rfl⟩, _, ⟨hns, rfl⟩, rfl⟩
      exact ⟨⟨hn, hns⟩, rfl⟩
    · rintro ⟨⟨hn, hns⟩, rfl⟩
      exact ⟨_, ⟨hn, rfl⟩, _, ⟨hns, rfl⟩, rfl⟩

/-- From the statement of a block, `readMembers?` reads its message exactly if the numbers are below
`2 ^ 29`. -/
theorem readMembers?_statement {block : MessageBlock} (hf : ∀ f ∈ block.fields, f.IsReadable)
    (result : Members) :
    readMembers? .proto3 "" .message [block.statement] = some result ↔
      (∀ f ∈ block.fields, f.number < 2 ^ 29) ∧
        result = { nested := { messages := [block.declaration] } } := by
  rw [MessageBlock.statement, readMembers?]
  have hscope : qualified "" block.name.text = block.name.text := rfl
  simp only [Option.bind_eq_bind, Option.bind_eq_some_iff, Option.pure_def, Option.some.injEq,
    readMembers?_eq hf, readMembers?, hscope]
  constructor
  · rintro ⟨_, ⟨hn, rfl⟩, _, rfl, _, rfl, rfl⟩
    exact ⟨hn, rfl⟩
  · rintro ⟨hn, rfl⟩
    exact ⟨_, ⟨hn, rfl⟩, _, rfl, _, rfl, rfl⟩

/-- From the statements of blocks, `readDeclarations?` reads their messages exactly if the numbers are below
`2 ^ 29`. -/
theorem readDeclarations?_blocks {blocks : List MessageBlock}
    (hf : ∀ f ∈ blocks.flatMap MessageBlock.fields, f.IsReadable) (result : Declarations) :
    readDeclarations? .proto3 "" (blocks.map MessageBlock.statement) = some result ↔
      (∀ f ∈ blocks.flatMap MessageBlock.fields, f.number < 2 ^ 29) ∧
        result = { messages := blocks.map MessageBlock.declaration } := by
  induction blocks generalizing result with
  | nil => simp [readDeclarations?, eq_comm]
  | cons b blocks ih =>
    simp only [List.flatMap_cons, List.forall_mem_append] at hf ⊢
    have hblock := readMembers?_statement hf.1
    rw [MessageBlock.statement] at hblock
    rw [List.map_cons, MessageBlock.statement, readDeclarations?]
    simp only [Option.bind_eq_bind, Option.bind_eq_some_iff, Option.pure_def, Option.some.injEq,
      hblock, ih hf.2]
    constructor
    · rintro ⟨_, ⟨hn, rfl⟩, _, ⟨hns, rfl⟩, rfl⟩
      exact ⟨⟨hn, hns⟩, rfl⟩
    · rintro ⟨⟨hn, hns⟩, rfl⟩
      exact ⟨_, ⟨hn, rfl⟩, _, ⟨hns, rfl⟩, rfl⟩

/-! ## The document -/

/-- Statements without a block are passed over by `readDeclarations?`. -/
theorem readDeclarations?_plains (tss : List (List Token)) (rest : List Statement) :
    readDeclarations? .proto3 "" (tss.map Statement.plain ++ rest) =
      readDeclarations? .proto3 "" rest := by
  induction tss with
  | nil => rfl
  | cons ts tss ih => rw [List.map_cons, List.cons_append, readDeclarations?, ih]

/-- Statements of blocks change nothing for `readHeaders?`. -/
theorem readHeaders?_blocks (file : SchemaFile) (blocks : List MessageBlock) :
    readHeaders? file (blocks.map MessageBlock.statement) = some file := by
  induction blocks with
  | nil => rfl
  | cons b blocks ih => rw [List.map_cons, MessageBlock.statement, readHeaders?, ih]

/-- From the statements of imports, `readHeaders?` reads their paths in order. -/
theorem readHeaders?_imports (file : SchemaFile) (paths : List String) (rest : List Statement) :
    readHeaders? file (paths.map SchemaDocument.importStatement ++ rest) =
      readHeaders? { file with imports := file.imports ++ paths.map fun path => ⟨path, false⟩ } rest := by
  induction paths generalizing file with
  | nil => simp
  | cons path paths ih =>
    have hheader : readHeader? file (SchemaDocument.importTokens path) =
        some { file with imports := file.imports ++ [⟨path, false⟩] } := by
      simp [SchemaDocument.importTokens, readHeader?, textOf?]
    rw [List.map_cons, List.cons_append, SchemaDocument.importStatement, readHeaders?, hheader,
      Option.bind_some, ih]
    simp

/-- From the statements of a document, `readDialect?` reads `proto3` and leaves the others. -/
theorem readDialect?_statements (document : SchemaDocument) :
    readDialect? document.statements = some (.proto3, document.imports.map SchemaDocument.importStatement
      ++ document.messages.map MessageBlock.statement) := by
  simp [SchemaDocument.statements, SchemaDocument.headerTokens, readDialect?, textOf?]

/-- From the text of a plain and readable document, `ofText?` reads its `file` exactly if all numbers are below
`2 ^ 29`. -/
theorem SchemaFile.ofText?_text {document : SchemaDocument} (hd : document.IsPlain)
    (hf : ∀ f ∈ document.fields, f.IsReadable) (result : SchemaFile) :
    SchemaFile.ofText? inlineDocumentName document.text = some result ↔
      (∀ f ∈ document.fields, f.number < 2 ^ 29) ∧ result = document.file := by
  have hheaders : readHeaders? { path := inlineDocumentName, dialect := .proto3 }
      (document.imports.map SchemaDocument.importStatement
        ++ document.messages.map MessageBlock.statement) =
      some { document.file with declarations := {} } := by
    rw [readHeaders?_imports, readHeaders?_blocks]
    rfl
  have hdeclarations := readDeclarations?_blocks hf
  have hplains := readDeclarations?_plains (document.imports.map SchemaDocument.importTokens)
    (document.messages.map MessageBlock.statement)
  rw [List.map_map] at hplains
  have hskip : readDeclarations? .proto3 "" (document.imports.map SchemaDocument.importStatement
      ++ document.messages.map MessageBlock.statement) =
      readDeclarations? .proto3 "" (document.messages.map MessageBlock.statement) := hplains
  unfold SchemaFile.ofText?
  simp only [Option.bind_eq_bind, Option.bind_eq_some_iff, Option.pure_def, Option.some.injEq,
    statements?_text hd]
  constructor
  · rintro ⟨_, ⟨-, rfl⟩, ⟨dialect, statements⟩, hdialect, hrest⟩
    rw [readDialect?_statements, Option.some.injEq, Prod.mk.injEq] at hdialect
    obtain ⟨rfl, rfl⟩ := hdialect
    simp only [hheaders, Option.some.injEq] at hrest
    obtain ⟨_, rfl, declarations, hread, rfl⟩ := hrest
    obtain ⟨hn, rfl⟩ := (hdeclarations declarations).mp (hskip.symm.trans hread)
    exact ⟨hn, rfl⟩
  · rintro ⟨hn, rfl⟩
    refine ⟨_, ⟨fun f hmem => (hn f hmem).trans (by decide), rfl⟩, _, readDialect?_statements document, ?_⟩
    simp only [hheaders, Option.some.injEq]
    exact ⟨_, rfl, _, hskip.trans ((hdeclarations _).mpr ⟨hn, rfl⟩), rfl⟩

end Schema

end Tagwire
