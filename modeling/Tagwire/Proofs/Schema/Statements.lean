import Tagwire.Proofs.Schema.Rendering
import Tagwire.Schema.Statement

/-!
# Statements of a rendered document

The machine that stacks open blocks reads a line of a document as one plain statement and a message block
as one statement with a body, whatever stands around them.  So the statements of a document are its first
line, its imports and its blocks.
-/

set_option autoImplicit false

namespace Tagwire

open Schema

/-! ## The statements -/

namespace MessageBlock

/-- The statement of a block. -/
def statement (block : MessageBlock) : Statement :=
  .block [.word "message", .word block.name.text] (block.fields.map fun f => .plain f.tokens)

end MessageBlock

namespace SchemaDocument

/-- The statement that imports `path`. -/
def importStatement (path : String) : Statement := .plain (importTokens path)

/-- The statements of a document: its header, its imports and its blocks. -/
def statements (document : SchemaDocument) : List Statement :=
  .plain headerTokens ::
    (document.imports.map importStatement ++ document.messages.map MessageBlock.statement)

end SchemaDocument

namespace Schema

/-- Is the token no semicolon, brace or bracket, and so just put behind the others of its statement? -/
def isInert (token : Token) : Bool :=
  token != .mark ';' && token != .mark '\x7b' && token != .mark '\x7d' && token != .mark '['
    && token != .mark ']'

namespace StatementStack

/-! ## Steps of the machine -/

/-- An inert token is put behind the others of its statement. -/
theorem step_inert {t : Token} (ht : isInert t = true) (head : List Token) (done : List Statement)
    (outer : List (List Token × List Statement)) :
    step ⟨head, done, 0, outer⟩ t = some ⟨t :: head, done, 0, outer⟩ := by
  simp only [isInert, Bool.and_eq_true, bne_iff_ne] at ht
  obtain ⟨⟨⟨⟨hsemicolon, hopen⟩, hclose⟩, hbracket⟩, -⟩ := ht
  simp [step, opens, hsemicolon, hopen, hclose, hbracket]

/-- Inert tokens are put behind the others of their statement, in their order. -/
theorem foldlM_step_inert (ts : List Token) (hts : ts.all isInert = true) (head : List Token)
    (done : List Statement) (outer : List (List Token × List Statement)) :
    ts.foldlM step ⟨head, done, 0, outer⟩ = some ⟨ts.reverse ++ head, done, 0, outer⟩ := by
  induction ts generalizing head with
  | nil => rfl
  | cons t ts ih =>
    rw [List.all_cons, Bool.and_eq_true] at hts
    rw [List.foldlM_cons, step_inert hts.1, Option.bind_eq_bind, Option.bind_some, ih hts.2]
    simp

/-- Inert tokens and a semicolon become a plain statement. -/
theorem foldlM_step_plain (ts : List Token) (hts : ts.all isInert = true) (hne : ts ≠ [])
    (done : List Statement) (outer : List (List Token × List Statement)) :
    (ts ++ [Token.mark ';']).foldlM step ⟨[], done, 0, outer⟩ = some ⟨[], .plain ts :: done, 0, outer⟩ := by
  rw [List.foldlM_append, foldlM_step_inert ts hts]
  simp [step, hne]

/-- Lists of inert tokens, each with a semicolon, become plain statements. -/
theorem foldlM_step_plains (tss : List (List Token)) (htss : ∀ ts ∈ tss, ts.all isInert = true ∧ ts ≠ [])
    (done : List Statement) (outer : List (List Token × List Statement)) :
    (tss.flatMap fun ts => ts ++ [Token.mark ';']).foldlM step ⟨[], done, 0, outer⟩ =
      some ⟨[], (tss.map Statement.plain).reverse ++ done, 0, outer⟩ := by
  induction tss generalizing done with
  | nil => rfl
  | cons ts tss ih =>
    obtain ⟨hts, hne⟩ := htss ts (by simp)
    rw [List.flatMap_cons, List.foldlM_append, foldlM_step_plain ts hts hne, Option.bind_eq_bind,
      Option.bind_some, ih fun ts' hts' => htss ts' (by simp [hts'])]
    simp

/-- An opening brace opens a block, unless the statement begins with `option`. -/
theorem step_open (head : List Token) (hhead : head.getLast? ≠ some (.word "option"))
    (done : List Statement) (outer : List (List Token × List Statement)) :
    step ⟨head, done, 0, outer⟩ (.mark '\x7b') = some ⟨[], [], 0, (head, done) :: outer⟩ := by
  simp [step, hhead]

/-- A closing brace closes the innermost block. -/
theorem step_close (head : List Token) (body done : List Statement)
    (outer : List (List Token × List Statement)) :
    step ⟨[], body, 0, (head, done) :: outer⟩ (.mark '\x7d') =
      some ⟨[], .block head.reverse body.reverse :: done, 0, outer⟩ := by
  simp [step, opens]

end StatementStack

/-! ## Statements of a document -/

open StatementStack

/-- The tokens of words with points between them are inert. -/
theorem isInert_of_mem_pathTokens {ws : List String} {t : Token} (h : t ∈ pathTokens ws) :
    isInert t = true := by
  induction ws with
  | nil => simp [pathTokens] at h
  | cons w ws ih =>
    cases ws with
    | nil =>
      rw [pathTokens, List.mem_singleton] at h
      subst h
      simp [isInert]
    | cons v vs =>
      rw [pathTokens, List.mem_cons, List.mem_cons] at h
      · rcases h with rfl | rfl | h
        · simp [isInert]
        · decide
        · exact ih h
      · simp

/-- The tokens of a line are inert, and there is one. -/
theorem tokens_inert (field : SchemaField) :
    field.tokens.all isInert = true ∧ field.tokens ≠ [] := by
  refine ⟨?_, by simp [SchemaField.tokens]⟩
  rw [SchemaField.tokens, List.all_append, List.all_append, Bool.and_eq_true, Bool.and_eq_true]
  refine ⟨⟨?_, List.all_eq_true.mpr fun t ht => isInert_of_mem_pathTokens ht⟩, by simp [isInert]⟩
  cases field.repeated <;> simp [isInert]

/-- The tokens of a block become its statement. -/
theorem foldlM_step_block (block : MessageBlock) (done : List Statement) :
    block.tokens.foldlM step ⟨[], done, 0, []⟩ = some ⟨[], block.statement :: done, 0, []⟩ := by
  have hhead := foldlM_step_inert [.word "message", .word block.name.text]
    (by simp [isInert]) [] done []
  have hbody := foldlM_step_plains (block.fields.map SchemaField.tokens)
    (by simpa using fun f _ => tokens_inert f) []
    [([.word block.name.text, .word "message"], done)]
  have hopen := step_open [.word block.name.text, .word "message"] (by simp) done []
  have htokens : block.tokens = [.word "message", .word block.name.text] ++ (.mark '\x7b' ::
      ((block.fields.map SchemaField.tokens).flatMap (fun ts => ts ++ [.mark ';']) ++ [.mark '\x7d'])) := by
    simp [MessageBlock.tokens, List.flatMap_map]
  rw [htokens, List.foldlM_append, hhead, Option.bind_eq_bind, Option.bind_some, List.foldlM_cons]
  show (step ⟨[.word block.name.text, .word "message"], done, 0, []⟩ _ >>= _) = _
  rw [hopen, Option.bind_eq_bind, Option.bind_some, List.foldlM_append, hbody, Option.bind_eq_bind,
    Option.bind_some, List.foldlM_cons, step_close]
  simp [MessageBlock.statement]

/-- The tokens of blocks become their statements. -/
theorem foldlM_step_blocks (blocks : List MessageBlock) (done : List Statement) :
    (blocks.flatMap MessageBlock.tokens).foldlM step ⟨[], done, 0, []⟩ =
      some ⟨[], (blocks.map MessageBlock.statement).reverse ++ done, 0, []⟩ := by
  induction blocks generalizing done with
  | nil => rfl
  | cons b blocks ih =>
    rw [List.flatMap_cons, List.foldlM_append, foldlM_step_block, Option.bind_eq_bind,
      Option.bind_some, ih]
    simp

/-- The tokens of a document become its statements. -/
theorem foldlM_step_tokens (document : SchemaDocument) :
    document.tokens.foldlM step {} = some ⟨[], document.statements.reverse, 0, []⟩ := by
  have hheader := foldlM_step_plain SchemaDocument.headerTokens
    (by simp [SchemaDocument.headerTokens, isInert]) (by simp [SchemaDocument.headerTokens]) [] []
  have himports := foldlM_step_plains (document.imports.map SchemaDocument.importTokens)
    (by simp [SchemaDocument.importTokens, isInert]) [.plain SchemaDocument.headerTokens] []
  rw [List.flatMap_map] at himports
  rw [SchemaDocument.tokens, List.foldlM_append, List.foldlM_append, hheader, Option.bind_eq_bind,
    Option.bind_some, himports, Option.bind_some, foldlM_step_blocks]
  simp [SchemaDocument.statements, SchemaDocument.importStatement, Function.comp_def]

/-- The text of a plain document is read as its statements, exactly if all numbers are below `2 ^ 64`. -/
theorem statements?_text {document : SchemaDocument} (hd : document.IsPlain)
    (result : List Statement) :
    statements? document.text = some result ↔
      (∀ f ∈ document.fields, f.number < 2 ^ 64) ∧ result = document.statements := by
  unfold statements?
  simp only [Option.bind_eq_bind, Option.bind_eq_some_iff, tokens?_text hd]
  constructor
  · rintro ⟨_, ⟨hfits, rfl⟩, final, hfinal, hresult⟩
    rw [foldlM_step_tokens, Option.some.injEq] at hfinal
    subst hfinal
    simp only [result?, List.isEmpty_nil, Bool.and_self, if_true, Option.some.injEq,
      List.reverse_reverse] at hresult
    exact ⟨hfits, hresult.symm⟩
  · rintro ⟨hfits, rfl⟩
    refine ⟨_, ⟨hfits, rfl⟩, _, foldlM_step_tokens document, ?_⟩
    simp [result?]

end Schema

end Tagwire
