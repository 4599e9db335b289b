import Tagwire.Document
import Tagwire.Proofs.Schema.Tokens

/-!
# Tokens of a rendered document

The text of a document is cut into the tokens of its statements, in the order in which they were written,
if its names are identifiers, its types are identifiers with points between them, and its imported paths
are plain.  Only a field number that does not fit 64 bits stops the reading.
-/

set_option autoImplicit false

namespace Tagwire

open Schema

/-! ## The tokens -/

/-- The words of a name, which is split at its points. -/
def pathWords (name : String) : List String := (name.toList.splitOn '.').map String.ofList

/-- The tokens of words with points between them. -/
def pathTokens : List String → List Token
  | [] => []
  | [w] => [.word w]
  | w :: ws => .word w :: .mark '.' :: pathTokens ws

namespace SchemaField

/-- The tokens of a line, without its semicolon. -/
def tokens (field : SchemaField) : List Token :=
  (if field.repeated then [.word "repeated"] else []) ++ pathTokens (pathWords field.typeName)
    ++ [.word field.name, .mark '=', .natural field.number]

/-- The name of the field and the words of its type are identifiers, and its number is positive. -/
structure IsPlain (field : SchemaField) : Prop where
  name : isIdentifier field.name = true
  type : (pathWords field.typeName).all isIdentifier = true
  number : 0 < field.number

end SchemaField

namespace MessageBlock

/-- The tokens of a block. -/
def tokens (block : MessageBlock) : List Token :=
  [.word "message", .word block.name.text, .mark '\x7b']
    ++ block.fields.flatMap (fun f => f.tokens ++ [.mark ';']) ++ [.mark '\x7d']

end MessageBlock

namespace SchemaDocument

/-- The tokens of an import, without its semicolon. -/
def importTokens (path : String) : List Token := [.word "import", .text (Bytes.ofString path)]

/-- The tokens of `syntax = "proto3"`, without the semicolon. -/
def headerTokens : List Token := [.word "syntax", .mark '=', .text (Bytes.ofString "proto3")]

/-- The tokens of a document. -/
def tokens (document : SchemaDocument) : List Token :=
  headerTokens ++ [.mark ';'] ++ document.imports.flatMap (fun path => importTokens path ++ [.mark ';'])
    ++ document.messages.flatMap MessageBlock.tokens

/-- The fields of all blocks of a document, in their order. -/
def fields (document : SchemaDocument) : List SchemaField := document.messages.flatMap MessageBlock.fields

/-- The paths of the imports have plain characters, and all fields are plain. -/
structure IsPlain (document : SchemaDocument) : Prop where
  imports : ∀ path ∈ document.imports, path.toList.all isPlainChar = true
  fields : ∀ f ∈ document.fields, f.IsPlain

end SchemaDocument

namespace Schema

namespace Lexes

variable {rest : List Char} {fits : Prop} {ts : List Token}

/-- The characters of words with points between them lex as `pathTokens`. -/
theorem path {ws : List String} (hws : ws.all isIdentifier = true)
    (hrest : ∀ c ∈ rest.head?, isIdentifierRest c = false) (h : Lexes rest fits ts) :
    Lexes (['.'].intercalate (ws.map String.toList) ++ rest) fits (pathTokens ws ++ ts) := by
  induction ws with
  | nil => exact h
  | cons w ws ih =>
    rw [List.all_cons, Bool.and_eq_true] at hws
    cases ws with
    | nil => simpa [pathTokens] using word hws.1 hrest h
    | cons v ws =>
      have htail := ih hws.2
      have hv : isIdentifier v = true := by
        rw [List.all_cons, Bool.and_eq_true] at hws
        exact hws.2.1
      -- The point stands before a word, so that it starts no number.
      have hhead : ∀ d ∈ (['.'].intercalate ((v :: ws).map String.toList) ++ rest).head?,
          d.isDigit = false := by
        unfold isIdentifier at hv
        cases hcs : v.toList with
        | nil =>
          rw [hcs] at hv
          cases hv
        | cons c cs =>
          rw [hcs, isIdentifierChars, Bool.and_eq_true] at hv
          have hhead : (['.'].intercalate ((v :: ws).map String.toList) ++ rest).head? = some c := by
            cases ws with
            | nil => simp [hcs]
            | cons u us => simp [List.intercalate_cons_cons, hcs]
          intro d hd
          rw [hhead, Option.mem_some_iff] at hd
          subst hd
          cases hdigit : c.isDigit with
          | false => rfl
          | true => exact absurd hv.1 (by simp [isIdentifierStart_eq_false_of_isDigit hdigit])
      have hdot := mark (c := '.') (by decide) (by decide) (.inr hhead) htail
      have hword := word hws.1 (by simp; decide) hdot
      simpa [pathTokens, List.intercalate_cons_cons] using hword

/-- The line of a plain field lexes as its tokens and a semicolon, exactly if its number is below `2 ^ 64`. -/
theorem line {field : SchemaField} (hf : field.IsPlain) (h : Lexes rest fits ts) :
    Lexes (field.line.toList ++ rest) (field.number < 2 ^ 64 ∧ fits)
      (field.tokens ++ [.mark ';'] ++ ts) := by
  have hend := mark (c := ';') (by decide) (by decide) (.inl (by decide)) (blank (c := '\n') (by decide) h)
  have hnumber := natural hf.number (by simp [IsApart]; decide) hend
  have hequals := blank (c := ' ') (by decide) (mark (c := '=') (by decide) (by decide) (.inl (by decide))
    (blank (c := ' ') (by decide) hnumber))
  have hname := blank (c := ' ') (by decide) (word hf.name (by simp; decide) hequals)
  have htype := path hf.type (by simp; decide) hname
  have hwords : ['.'].intercalate ((pathWords field.typeName).map String.toList) =
      field.typeName.toList := by
    simp [pathWords, Function.comp_def, List.intercalate_splitOn]
  rw [hwords] at htype
  cases hr : field.repeated with
  | false =>
    have hline := blanks [' ', ' '] (by decide) htype
    simpa [SchemaField.line, SchemaField.tokens, hr] using hline
  | true =>
    have hlabel := word (w := "repeated") (by decide) (by simp; decide)
      (blank (c := ' ') (by decide) htype)
    have hline := blanks [' ', ' '] (by decide) hlabel
    simpa [SchemaField.line, SchemaField.tokens, hr] using hline

/-- The lines of plain fields lex as their tokens, exactly if all numbers are below `2 ^ 64`. -/
theorem lines {fields : List SchemaField} (hf : ∀ f ∈ fields, f.IsPlain) (h : Lexes rest fits ts) :
    Lexes ((String.join (fields.map SchemaField.line)).toList ++ rest)
      ((∀ f ∈ fields, f.number < 2 ^ 64) ∧ fits)
      (fields.flatMap (fun f => f.tokens ++ [.mark ';']) ++ ts) := by
  induction fields with
  | nil => simpa using h
  | cons f fields ih =>
    have hline := line (hf f (by simp)) (ih fun f' hf' => hf f' (by simp [hf']))
    simp only [List.map_cons, String.join_cons, String.toList_append, List.append_assoc,
      List.flatMap_cons, List.forall_mem_cons, and_assoc] at hline ⊢
    exact hline

/-- The text of a block of plain fields lexes as its tokens, exactly if all numbers are below `2 ^ 64`. -/
theorem block {block : MessageBlock} (hf : ∀ f ∈ block.fields, f.IsPlain) (h : Lexes rest fits ts) :
    Lexes (block.text.toList ++ rest) ((∀ f ∈ block.fields, f.number < 2 ^ 64) ∧ fits)
      (block.tokens ++ ts) := by
  have hname : isIdentifier block.name.text = true := by
    have := block.name.wellFormed
    simp only [isMessageName, Bool.and_eq_true] at this
    exact this.1.2
  have hclose := mark (c := '\x7d') (by decide) (by decide) (.inl (by decide))
    (blanks ['\n', '\n'] (by decide) h)
  have hbody := blank (c := '\n') (by decide) (lines hf hclose)
  have hopen := blank (c := ' ') (by decide)
    (mark (c := '\x7b') (by decide) (by decide) (.inl (by decide)) hbody)
  have hhead := blank (c := ' ') (by decide) (word hname (by simp; decide) hopen)
  have hword := word (w := "message") (by decide) (by simp; decide) hhead
  simpa [MessageBlock.text, MessageBlock.tokens] using hword

/-- The text of blocks of plain fields lexes as their tokens, exactly if all numbers are below `2 ^ 64`. -/
theorem blocks {blocks : List MessageBlock}
    (hf : ∀ f ∈ blocks.flatMap MessageBlock.fields, f.IsPlain) (h : Lexes rest fits ts) :
    Lexes ((String.join (blocks.map MessageBlock.text)).toList ++ rest)
      ((∀ f ∈ blocks.flatMap MessageBlock.fields, f.number < 2 ^ 64) ∧ fits)
      (blocks.flatMap MessageBlock.tokens ++ ts) := by
  induction blocks with
  | nil => simpa using h
  | cons b blocks ih =>
    simp only [List.flatMap_cons, List.forall_mem_append] at hf
    have hblock := Lexes.block hf.1 (ih hf.2)
    simp only [List.map_cons, String.join_cons, String.toList_append, List.append_assoc,
      List.flatMap_cons, List.forall_mem_append, and_assoc] at hblock ⊢
    exact hblock

/-- The lines of imports with plain characters lex as their tokens. -/
theorem imports {paths : List String} (hp : ∀ path ∈ paths, path.toList.all isPlainChar = true)
    (h : Lexes rest fits ts) :
    Lexes ((String.join (paths.map SchemaDocument.importLine)).toList ++ rest) fits
      (paths.flatMap (fun path => SchemaDocument.importTokens path ++ [.mark ';']) ++ ts) := by
  induction paths with
  | nil => simpa using h
  | cons path paths ih =>
    have hend := mark (c := ';') (by decide) (by decide) (.inl (by decide))
      (blank (c := '\n') (by decide) (ih fun p hp' => hp p (by simp [hp'])))
    have htext := blank (c := ' ') (by decide) (text (hp path (by simp)) (by simp) hend)
    have hword := word (w := "import") (by decide) (by simp; decide) htext
    simpa [SchemaDocument.importLine, SchemaDocument.importTokens] using hword

end Lexes

/-- The text of a plain document lexes as its tokens, exactly if all numbers are below `2 ^ 64`. -/
theorem tokens?_text {document : SchemaDocument} (hd : document.IsPlain) (result : List Token) :
    tokens? document.text = some result ↔
      (∀ f ∈ document.fields, f.number < 2 ^ 64) ∧ result = document.tokens := by
  have hblocks := Lexes.blocks hd.fields Lexes.nil
  rw [and_true] at hblocks
  have himports := Lexes.blanks ['\n', '\n'] (by decide)
    (Lexes.imports hd.imports (Lexes.blank (c := '\n') (by decide) hblocks))
  have hheader := Lexes.word (w := "syntax") (by decide) (by simp; decide)
    (Lexes.mark (c := '=') (by decide) (by decide) (.inl (by decide))
      (Lexes.text (s := "proto3") (by decide) (by simp)
        (Lexes.mark (c := ';') (by decide) (by decide) (.inl (by decide)) himports)))
  have htext : document.text.toList = "syntax".toList ++ '=' :: '"' :: ("proto3".toList ++ '"' :: ';' ::
      (['\n', '\n'] ++ ((String.join (document.imports.map SchemaDocument.importLine)).toList ++
        '\n' :: ((String.join (document.messages.map MessageBlock.text)).toList ++ [])))) := by
    simp [SchemaDocument.text, SchemaDocument.header]
  have htokens : document.tokens = .word "syntax" :: .mark '=' :: .text (Bytes.ofString "proto3") ::
      .mark ';' :: (document.imports.flatMap (fun path => SchemaDocument.importTokens path ++ [.mark ';'])
        ++ (document.messages.flatMap MessageBlock.tokens ++ [])) := by
    simp [SchemaDocument.tokens, SchemaDocument.headerTokens]
  unfold tokens?
  rw [htokens, htext]
  exact hheader.reads _ le_rfl result

end Schema

end Tagwire
