import Tagwire.Proofs.Layout

/-!
# The lines of a rendered document

The text of a document is a list of lines: the header, one line for each import and one for each field,
between the lines that open and close the blocks and those that are empty.  A line of an import is the only
one that begins as it does, and a line of a field is told from what closes its block by its first character
and made of words with a blank between them.  So a text is that of one document only, as long as its names,
types and paths hold no blanks and no breaks.
-/

set_option autoImplicit false

namespace Tagwire

/-! ## Lists that are cut at a separator -/

/-- Two lists that agree up to and behind the first element without `p` agree in all parts. -/
theorem append_cons_inj {α : Type} {p : α → Prop} {a b r t : List α} {x y : α} (ha : ∀ c ∈ a, p c)
    (hb : ∀ c ∈ b, p c) (hx : ¬ p x) (hy : ¬ p y) (h : a ++ x :: r = b ++ y :: t) :
    a = b ∧ x = y ∧ r = t := by
  induction a generalizing b with
  | nil =>
    cases b with
    | nil => exact ⟨rfl, List.cons.inj h⟩
    | cons d b =>
      obtain ⟨rfl, -⟩ := List.cons.inj h
      exact absurd (hb _ List.mem_cons_self) hx
  | cons c a ih =>
    cases b with
    | nil =>
      obtain ⟨rfl, -⟩ := List.cons.inj h
      exact absurd (ha _ List.mem_cons_self) hy
    | cons d b =>
      obtain ⟨rfl, hrest⟩ := List.cons.inj h
      obtain ⟨rfl, hseparators⟩ := ih (fun c hc => ha c (List.mem_cons_of_mem _ hc))
        (fun c hc => hb c (List.mem_cons_of_mem _ hc)) hrest
      exact ⟨rfl, hseparators⟩

/-- Lists with the same image are the same, if the function is injective on their elements. -/
theorem eq_of_map_eq_map {α β : Type} {f : α → β} {l m : List α}
    (hf : ∀ a ∈ l, ∀ b ∈ m, f a = f b → a = b) (h : l.map f = m.map f) : l = m := by
  induction l generalizing m with
  | nil => exact (List.map_eq_nil_iff.mp h.symm).symm
  | cons a l ih =>
    cases m with
    | nil => cases h
    | cons b m =>
      obtain ⟨hfirst, hrest⟩ := List.cons.inj h
      rw [hf a List.mem_cons_self b List.mem_cons_self hfirst,
        ih (fun a ha b hb => hf a (List.mem_cons_of_mem _ ha) b (List.mem_cons_of_mem _ hb)) hrest]

/-- An element of lists with `x` between them is `x` or stands in one of the lists. -/
theorem mem_intercalate_singleton {α : Type} {x c : α} {lists : List (List α)}
    (h : c ∈ [x].intercalate lists) : c = x ∨ ∃ l ∈ lists, c ∈ l := by
  induction lists with
  | nil => cases h
  | cons l lists ih =>
    cases lists with
    | nil =>
      rw [List.intercalate_singleton] at h
      exact .inr ⟨l, List.mem_cons_self, h⟩
    | cons m lists =>
      rw [List.intercalate_cons_cons, List.mem_append, List.mem_append, List.mem_singleton] at h
      rcases h with (h | h) | h
      · exact .inr ⟨l, List.mem_cons_self, h⟩
      · exact .inl h
      · obtain h | ⟨l', hl', h⟩ := ih h
        · exact .inl h
        · exact .inr ⟨l', List.mem_cons_of_mem _ hl', h⟩

/-- The lines of a text, without the breaks between them. -/
def textLines (text : String) : List (List Char) := text.toList.splitOn '\n'

/-- Lines without breaks, each with a break behind it, are split into these lines and an empty one. -/
theorem splitOn_flatMap_break {lines : List (List Char)} (h : ∀ line ∈ lines, '\n' ∉ line) :
    (lines.flatMap (· ++ ['\n'])).splitOn '\n' = lines ++ [[]] := by
  induction lines with
  | nil => rfl
  | cons line lines ih =>
    rw [List.flatMap_cons, List.append_assoc, List.singleton_append,
      List.splitOn_append_cons_self_of_not_mem (h line List.mem_cons_self),
      ih fun l hl => h l (List.mem_cons_of_mem _ hl)]
    rfl

/-! ## The lines of a document -/

namespace SchemaField

/-- The words before the type of a line: `repeated` for a list. -/
def labels (field : SchemaField) : List (List Char) := if field.repeated then ["repeated".toList] else []

/-- The words of the line: its labels, its type, its name, the equals sign, and the number with its
semicolon. -/
def words (field : SchemaField) : List (List Char) :=
  field.labels ++
    [field.typeName.toList, field.name.toList, ['='], (toString field.number).toList ++ [';']]

/-- The characters of the line, without its break. -/
def lineChars (field : SchemaField) : List Char := ' ' :: ' ' :: [' '].intercalate field.words

/-- The characters of a line are its `lineChars` and a break. -/
theorem toList_line (field : SchemaField) : field.line.toList = field.lineChars ++ ['\n'] := by
  cases hr : field.repeated <;>
    simp [line, lineChars, words, labels, hr, List.intercalate_cons_cons]

/-- A character that is neither part of an identifier nor a point, an equals sign or a semicolon is in no word
of a plain field. -/
theorem IsPlain.not_mem_words {field : SchemaField} (hf : field.IsPlain) {c : Char}
    (hc : isIdentifierRest c = false) (hpoint : c ≠ '.') (hequals : c ≠ '=') (hsemicolon : c ≠ ';') :
    ∀ w ∈ field.words, c ∉ w := by
  have hlabels : ∀ w ∈ field.labels, c ∉ w := by
    intro w hw
    unfold labels at hw
    split at hw
    · rw [List.mem_singleton] at hw
      exact hw ▸ not_mem_of_isIdentifier hc (by decide)
    · cases hw
  have htype : c ∉ field.typeName.toList := by
    rw [toList_eq_intercalate_pathWords]
    intro hmem
    obtain hmem | ⟨w, hw, hmem⟩ := mem_intercalate_singleton hmem
    · exact hpoint hmem
    · obtain ⟨word, hword, rfl⟩ := List.mem_map.mp hw
      exact not_mem_of_isIdentifier hc (List.all_eq_true.mp hf.type word hword) hmem
  have hname : c ∉ field.name.toList := not_mem_of_isIdentifier hc hf.name
  have hnumber : c ∉ (toString field.number).toList := by
    rw [Nat.toString_eq_repr, Nat.toList_repr]
    intro hmem
    rw [Schema.isIdentifierRest_of_isDigit (isDigit_of_mem_toDigits hmem)] at hc
    cases hc
  have hlast : c ∉ (toString field.number).toList ++ [';'] := by
    rw [List.mem_append, List.mem_singleton, not_or]
    exact ⟨hnumber, hsemicolon⟩
  intro w hw
  simp only [words, List.mem_append, List.mem_cons, List.not_mem_nil, or_false] at hw
  rcases hw with hw | rfl | rfl | rfl | rfl
  · exact hlabels w hw
  · exact htype
  · exact hname
  · rwa [List.mem_singleton]
  · exact hlast

/-- Splitting the line of a plain field at its blanks gives two empty words, for the indent, and its `words`. -/
theorem IsPlain.splitOn_lineChars {field : SchemaField} (hf : field.IsPlain) :
    field.lineChars.splitOn ' ' = [] :: [] :: field.words := by
  have hwords : ([' '].intercalate field.words).splitOn ' ' = field.words := by
    refine List.splitOn_intercalate ' ' (hf.not_mem_words (by decide) (by decide) (by decide) (by decide)) ?_
    unfold words
    simp
  have hblank : ∀ cs : List Char, (' ' :: cs).splitOn ' ' = [] :: cs.splitOn ' ' := fun cs =>
    List.splitOn_append_cons_self_of_not_mem (List.not_mem_nil : ' ' ∉ ([] : List Char)) cs
  rw [lineChars, hblank, hblank, hwords]

/-- Fields with the same words are the same. -/
theorem words_injective {f g : SchemaField} (h : f.words = g.words) : f = g := by
  -- A repeated field has one word more than another.
  have hrepeated : f.repeated = g.repeated := by
    have hlength := congrArg List.length h
    simp only [words, List.length_append, labels] at hlength
    cases hf : f.repeated <;> cases hg : g.repeated <;> rw [hf, hg] at hlength <;>
      first | rfl | cases hlength
  have hparts : f.typeName = g.typeName ∧ f.name = g.name ∧
      (toString f.number).toList = (toString g.number).toList := by
    rw [words, words, labels, labels, hrepeated, List.append_cancel_left_eq] at h
    simp only [List.cons.injEq, String.toList_inj, List.append_cancel_right_eq, and_true, true_and] at h
    exact ⟨h.1, h.2.1, congrArg String.toList h.2.2⟩
  obtain ⟨htype, hname, hnumber⟩ := hparts
  have hvalue : f.number = g.number := by
    rw [Nat.toString_eq_repr, Nat.toString_eq_repr, Nat.toList_repr, Nat.toList_repr] at hnumber
    rw [← digitsValue_toDigits f.number, hnumber, digitsValue_toDigits]
  cases f
  cases g
  cases htype
  cases hname
  cases hvalue
  cases hrepeated
  rfl

/-- Plain fields with the same line are the same. -/
theorem IsPlain.lineChars_inj {f g : SchemaField} (hf : f.IsPlain) (hg : g.IsPlain)
    (h : f.lineChars = g.lineChars) : f = g := by
  have hcut := congrArg (List.splitOn ' ') h
  rw [hf.splitOn_lineChars, hg.splitOn_lineChars, List.cons.injEq, List.cons.injEq] at hcut
  exact words_injective hcut.2.2

/-- The line of a plain field has no break. -/
theorem IsPlain.break_not_mem_lineChars {field : SchemaField} (hf : field.IsPlain) :
    '\n' ∉ field.lineChars := by
  have hwords := hf.not_mem_words (c := '\n') (by decide) (by decide) (by decide) (by decide)
  unfold lineChars
  rw [List.mem_cons, List.mem_cons]
  rintro (h | h | h)
  · exact absurd h (by decide)
  · exact absurd h (by decide)
  · obtain h | ⟨w, hw, hmem⟩ := mem_intercalate_singleton h
    · exact absurd h (by decide)
    · exact hwords w hw hmem

end SchemaField

namespace MessageBlock

/-- The line that opens a block, with the name of its message. -/
def opening (block : MessageBlock) : List Char := ("message " ++ block.name.text ++ " \x7b").toList

/-- The lines of a block: the opening, those of its fields, the closing brace and an empty one. -/
def lines (block : MessageBlock) : List (List Char) :=
  block.opening :: (block.fields.map SchemaField.lineChars ++ [['\x7d'], []])

/-- The characters of a block are its lines, each with a break. -/
theorem toList_text (block : MessageBlock) : block.text.toList = block.lines.flatMap (· ++ ['\n']) := by
  have hfields : ∀ fields : List SchemaField, (String.join (fields.map SchemaField.line)).toList =
      (fields.map SchemaField.lineChars).flatMap (· ++ ['\n']) := by
    intro fields
    induction fields with
    | nil => rfl
    | cons f fields ih =>
      rw [List.map_cons, String.join_cons, String.toList_append, f.toList_line, ih, List.map_cons,
        List.flatMap_cons]
  simp [text, lines, opening, hfields]

/-- Blocks with the same opening have the same name. -/
theorem opening_inj {a b : MessageBlock} (h : a.opening = b.opening) : a.name = b.name := by
  unfold opening at h
  rw [String.toList_inj, String.append_left_inj, String.append_right_inj] at h
  exact MessageName.text_injective h

/-- The first character of the line of a field is a blank, unlike that of a closing brace. -/
theorem head?_lineChars (field : SchemaField) : field.lineChars.head? = some ' ' := rfl

/-- Lists of blocks with plain fields and the same lines are the same. -/
theorem flatMap_lines_inj {blocks others : List MessageBlock}
    (hb : ∀ f ∈ blocks.flatMap fields, f.IsPlain) (ho : ∀ f ∈ others.flatMap fields, f.IsPlain)
    (h : blocks.flatMap lines = others.flatMap lines) : blocks = others := by
  induction blocks generalizing others with
  | nil =>
    cases others with
    | nil => rfl
    | cons b others => cases h
  | cons a blocks ih =>
    cases others with
    | nil => cases h
    | cons b others =>
      simp only [List.flatMap_cons, List.forall_mem_append] at hb ho
      simp only [List.flatMap_cons, lines, List.cons_append, List.append_assoc, List.nil_append,
        List.cons.injEq] at h
      obtain ⟨hopening, hrest⟩ := h
      have hlines : ∀ fields : List SchemaField, ∀ line ∈ fields.map SchemaField.lineChars,
          line.head? = some ' ' := by
        intro fields line hline
        obtain ⟨f, -, rfl⟩ := List.mem_map.mp hline
        exact head?_lineChars f
      obtain ⟨hfields, -, hblocks⟩ :=
        append_cons_inj (hlines a.fields) (hlines b.fields) (by decide) (by decide) hrest
      have hsame : a.fields = b.fields :=
        eq_of_map_eq_map (fun f hf g hg => (hb.1 f hf).lineChars_inj (ho.1 g hg)) hfields
      have hname := opening_inj hopening
      rw [ih hb.2 ho.2 (List.cons.inj hblocks).2]
      cases a
      cases b
      cases hname
      cases hsame
      rfl

/-- No line of a block with plain fields has a break. -/
theorem break_not_mem_lines {block : MessageBlock} (hf : ∀ f ∈ block.fields, f.IsPlain) :
    ∀ line ∈ block.lines, '\n' ∉ line := by
  intro line hline
  simp only [lines, List.mem_cons, List.mem_append, List.not_mem_nil, or_false, List.mem_map] at hline
  rcases hline with rfl | ⟨f, hfield, rfl⟩ | rfl | rfl
  · have hname := not_mem_of_isIdentifier (c := '\n') (by decide) block.name.isIdentifier_text
    simp [opening, hname]
  · exact (hf f hfield).break_not_mem_lineChars
  · decide
  · decide

end MessageBlock

namespace SchemaDocument

/-- The line that imports `path`, without its break. -/
def importChars (path : String) : List Char := ("import \"" ++ path ++ "\";").toList

/-- The lines of a document: the header, an empty one, those of its imports, another empty one, and those of its
blocks. -/
def lines (document : SchemaDocument) : List (List Char) :=
  header.toList :: [] :: (document.imports.map importChars ++
    [] :: document.messages.flatMap MessageBlock.lines)

/-- The characters of a document are its lines, each with a break. -/
theorem toList_text (document : SchemaDocument) :
    document.text.toList = document.lines.flatMap (· ++ ['\n']) := by
  have himports : ∀ paths : List String, (String.join (paths.map importLine)).toList =
      (paths.map importChars).flatMap (· ++ ['\n']) := by
    intro paths
    induction paths with
    | nil => rfl
    | cons path paths ih =>
      have hline : (importLine path).toList = importChars path ++ ['\n'] := by
        simp [importLine, importChars]
      rw [List.map_cons, String.join_cons, String.toList_append, hline, ih, List.map_cons,
        List.flatMap_cons]
  have hblocks : ∀ blocks : List MessageBlock, (String.join (blocks.map MessageBlock.text)).toList =
      (blocks.flatMap MessageBlock.lines).flatMap (· ++ ['\n']) := by
    intro blocks
    induction blocks with
    | nil => rfl
    | cons b blocks ih =>
      rw [List.map_cons, String.join_cons, String.toList_append, b.toList_text, ih, List.flatMap_cons,
        List.flatMap_append]
  simp [text, lines, himports, hblocks]

/-- The lines of the text of a plain document are its `lines` and an empty one. -/
theorem textLines_text {document : SchemaDocument} (hd : document.IsPlain) :
    textLines document.text = document.lines ++ [[]] := by
  unfold textLines
  rw [document.toList_text]
  refine splitOn_flatMap_break fun line hline => ?_
  simp only [lines, List.mem_cons, List.mem_append, List.mem_map, List.mem_flatMap] at hline
  rcases hline with rfl | rfl | ⟨path, hpath, rfl⟩ | rfl | ⟨block, hblock, hline⟩
  · decide
  · decide
  · have hplain : '\n' ∉ path.toList := by
      intro hmem
      exact absurd (List.all_eq_true.mp (hd.imports path hpath) _ hmem) (by decide)
    simp [importChars, hplain]
  · decide
  · exact MessageBlock.break_not_mem_lines
      (fun f hf => hd.fields f (List.mem_flatMap.mpr ⟨block, hblock, hf⟩)) line hline

/-- Plain documents with the same text are the same. -/
theorem IsPlain.text_inj {document other : SchemaDocument} (hd : document.IsPlain) (ho : other.IsPlain)
    (h : document.text = other.text) : document = other := by
  have hlines := congrArg textLines h
  rw [textLines_text hd, textLines_text ho, List.append_cancel_right_eq, lines, lines,
    List.cons.injEq, List.cons.injEq] at hlines
  have hne : ∀ paths : List String, ∀ line ∈ paths.map importChars, line ≠ [] := by
    intro paths line hline
    obtain ⟨path, -, rfl⟩ := List.mem_map.mp hline
    simp [importChars]
  obtain ⟨himports, -, hblocks⟩ := append_cons_inj (hne document.imports) (hne other.imports)
    (by simp) (by simp) hlines.2.2
  have hpaths : document.imports = other.imports := by
    refine eq_of_map_eq_map (fun path _ path' _ hpath => ?_) himports
    unfold importChars at hpath
    rwa [String.toList_inj, String.append_left_inj, String.append_right_inj] at hpath
  have hmessages := MessageBlock.flatMap_lines_inj hd.fields ho.fields hblocks
  cases document
  cases other
  cases hpaths
  cases hmessages
  rfl

end SchemaDocument

end Tagwire
