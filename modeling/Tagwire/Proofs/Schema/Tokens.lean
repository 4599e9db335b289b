import Tagwire.Proofs.Naming
import Tagwire.Proofs.Text
import Tagwire.Schema.Token

/-!
# Tokens of a text without comments

A text is put together from the back: one more blank in front leaves its tokens as they are, and one more
word, number, string or mark in front of a text that does not run into it adds its token.  The only thing
that can go wrong on the way is a number that does not fit 64 bits, so that reading succeeds exactly under
a condition that is carried along.
-/

set_option autoImplicit false

namespace Tagwire

namespace Schema

/-- The characters begin with no comment, and `readTokens?` reads them as the tokens exactly if `fits` holds. -/
structure Lexes (cs : List Char) (fits : Prop) (ts : List Token) : Prop where
  no_comment : ∀ rest, cs.dropWhile isBlank ≠ '/' :: rest
  reads : ∀ fuel, cs.length ≤ fuel → ∀ result,
    readTokens? fuel cs = some result ↔ fits ∧ result = ts

/-- The first character, if any, neither continues an identifier nor is a point. -/
def IsApart (cs : List Char) : Prop := ∀ c ∈ cs.head?, isIdentifierRest c = false ∧ c ≠ '.'

/-! ## Blanks -/

/-- Where no comment follows the blanks, `skipBlanks` drops the blanks only. -/
theorem skipBlanks_eq {cs : List Char} (h : ∀ rest, cs.dropWhile isBlank ≠ '/' :: rest) (fuel : Nat) :
    skipBlanks (fuel + 1) cs = some (cs.dropWhile isBlank) := by
  unfold skipBlanks
  split
  · rename_i rest hd
    exact absurd hd (h _)
  · rename_i rest hd
    exact absurd hd (h _)
  · rfl

/-- Where no comment follows the blanks, `readTokens?` drops the blanks and reads one token and then the
others. -/
theorem readTokens?_eq {cs : List Char} (h : ∀ rest, cs.dropWhile isBlank ≠ '/' :: rest) (fuel : Nat) :
    readTokens? fuel cs =
      match cs.dropWhile isBlank, fuel with
      | [], _ => some []
      | _ :: _, 0 => none
      | c :: rest, fuel + 1 =>
        (readToken? (c :: rest)).bind fun (token, rest) =>
          (readTokens? fuel rest).map (Token.cons token) := by
  rw [readTokens?.eq_def]
  dsimp only
  rw [skipBlanks_eq h]
  cases cs.dropWhile isBlank with
  | nil => rfl
  | cons c rest => cases fuel <;> rfl

namespace Lexes

variable {cs rest : List Char} {fits : Prop} {ts : List Token}

/-- No characters lex as no tokens. -/
theorem nil : Lexes [] True [] := by
  refine ⟨by simp, fun fuel _ result => ?_⟩
  rw [readTokens?_eq (by simp)]
  simp [eq_comm]

/-- A blank before characters changes nothing. -/
theorem blank {c : Char} (hc : isBlank c = true) (h : Lexes cs fits ts) : Lexes (c :: cs) fits ts := by
  have hdrop : (c :: cs).dropWhile isBlank = cs.dropWhile isBlank := List.dropWhile_cons_of_pos hc
  refine ⟨by rw [hdrop]; exact h.no_comment, fun fuel hfuel result => ?_⟩
  rw [readTokens?_eq (by rw [hdrop]; exact h.no_comment), hdrop, ← readTokens?_eq h.no_comment]
  rw [List.length_cons] at hfuel
  exact h.reads fuel (by omega) result

/-- Blanks before characters change nothing. -/
theorem blanks (bs : List Char) (hbs : bs.all isBlank = true) (h : Lexes cs fits ts) :
    Lexes (bs ++ cs) fits ts := by
  induction bs with
  | nil => exact h
  | cons b bs ih =>
    rw [List.all_cons, Bool.and_eq_true] at hbs
    exact blank hbs.1 (ih hbs.2)

/-- A token that is read exactly if `p` holds, before characters that lex exactly if `fits` holds, makes both
conditions necessary. -/
theorem token {c : Char} {p : Prop} {t : Token} (hblank : isBlank c = false) (hslash : c ≠ '/')
    (hread : ∀ r, readToken? (c :: cs) = some r ↔ p ∧ r = (t, rest))
    (hlength : rest.length ≤ cs.length) (h : Lexes rest fits ts) :
    Lexes (c :: cs) (p ∧ fits) (t.cons ts) := by
  have hdrop : (c :: cs).dropWhile isBlank = c :: cs :=
    List.dropWhile_cons_of_neg (by simpa using hblank)
  have hcomment : ∀ r, (c :: cs).dropWhile isBlank ≠ '/' :: r := by
    intro r hr
    rw [hdrop] at hr
    exact hslash (List.cons.inj hr).1
  refine ⟨hcomment, fun fuel hfuel result => ?_⟩
  rw [List.length_cons] at hfuel
  obtain ⟨fuel, rfl⟩ : ∃ f, fuel = f + 1 := ⟨fuel - 1, by omega⟩
  rw [readTokens?_eq hcomment, hdrop]
  show (readToken? (c :: cs)).bind _ = _ ↔ _
  rw [Option.bind_eq_some_iff]
  simp only [hread, Option.map_eq_some_iff]
  constructor
  · rintro ⟨_, ⟨hp, rfl⟩, tokens, htokens, rfl⟩
    obtain ⟨hf, rfl⟩ := (h.reads fuel (by omega) tokens).mp htokens
    exact ⟨⟨hp, hf⟩, rfl⟩
  · rintro ⟨⟨hp, hf⟩, rfl⟩
    exact ⟨_, ⟨hp, rfl⟩, ts, (h.reads fuel (by omega) ts).mpr ⟨hf, rfl⟩, rfl⟩

/-- A token that is always read leaves the condition as it is. -/
theorem token_of_eq {c : Char} {t : Token} (hblank : isBlank c = false) (hslash : c ≠ '/')
    (hread : readToken? (c :: cs) = some (t, rest)) (hlength : rest.length ≤ cs.length)
    (h : Lexes rest fits ts) : Lexes (c :: cs) fits (t.cons ts) := by
  have htoken := token (p := True) (t := t) hblank hslash (by simp [hread, eq_comm]) hlength h
  rwa [true_and] at htoken

end Lexes

/-! ## Marks and words -/

/-- A mark is no blank, no digit and no quote, and neither begins nor continues an identifier. -/
theorem isMark_spec {c : Char} (h : isMark c = true) :
    isBlank c = false ∧ isIdentifierStart c = false ∧ isIdentifierRest c = false ∧
      c.isDigit = false ∧ c ≠ '"' ∧ c ≠ '\'' := by
  simp only [isMark, Bool.or_eq_true, decide_eq_true_eq] at h
  rcases h with ((((((((((((((rfl | rfl) | rfl) | rfl) | rfl) | rfl) | rfl) | rfl) | rfl) | rfl) | rfl)
    | rfl) | rfl) | rfl) | rfl) | rfl <;> decide

/-- A character that begins an identifier is neither a blank nor a slash. -/
theorem isBlank_of_isIdentifierStart {c : Char} (h : isIdentifierStart c = true) :
    isBlank c = false ∧ c ≠ '/' := by
  have hne : ∀ d : Char, isIdentifierStart d = false → c ≠ d := by
    rintro d hd rfl
    rw [h] at hd
    cases hd
  simp [isBlank, hne ' ' (by decide), hne '\n' (by decide), hne '\t' (by decide),
    hne '\r' (by decide), hne '\x0b' (by decide), hne '\x0c' (by decide), hne '/' (by decide)]

namespace Lexes

variable {rest : List Char} {fits : Prop} {ts : List Token}

/-- A mark lexes as its token, unless it is a slash or a point before a digit. -/
theorem mark {c : Char} (hc : isMark c = true) (hslash : c ≠ '/')
    (hdot : c ≠ '.' ∨ ∀ d ∈ rest.head?, d.isDigit = false) (h : Lexes rest fits ts) :
    Lexes (c :: rest) fits (.mark c :: ts) := by
  obtain ⟨hblank, hstart, -, hdigit, hquote, hsingle⟩ := isMark_spec hc
  have hnumber : (c == '.' && (rest.head?.map Char.isDigit).getD false) = false := by
    cases hr : rest.head? with
    | none => simp
    | some d =>
      rcases hdot with hcd | hdot
      · simp [hcd]
      · simp [hdot d (by simp [hr])]
  refine token_of_eq (t := .mark c) hblank hslash ?_ le_rfl h
  simp [readToken?, hstart, hdigit, hnumber, hquote, hsingle, hc]

/-- An identifier before characters that do not continue it lexes as its word. -/
theorem word {w : String} (hw : isIdentifier w = true)
    (hrest : ∀ c ∈ rest.head?, isIdentifierRest c = false) (h : Lexes rest fits ts) :
    Lexes (w.toList ++ rest) fits (.word w :: ts) := by
  unfold isIdentifier at hw
  cases hcs : w.toList with
  | nil =>
    rw [hcs] at hw
    cases hw
  | cons c cs =>
    rw [hcs, isIdentifierChars, Bool.and_eq_true, List.all_eq_true] at hw
    obtain ⟨hstart, hall⟩ := hw
    obtain ⟨hblank, hslash⟩ := isBlank_of_isIdentifierStart hstart
    have htake : (cs ++ rest).takeWhile isIdentifierRest = cs := by
      rw [List.takeWhile_append_of_pos hall]
      cases rest with
      | nil => simp
      | cons d rest => simp [hrest d rfl]
    have hdrop : (cs ++ rest).dropWhile isIdentifierRest = rest := by
      rw [List.dropWhile_append_of_pos hall]
      cases rest with
      | nil => simp
      | cons d rest => simp [hrest d rfl]
    rw [List.cons_append]
    refine token_of_eq (t := .word w) hblank hslash ?_ (by simp) h
    rw [readToken?, if_pos hstart, htake, hdrop, ← hcs, String.ofList_toList]

end Lexes

/-! ## Strings -/

/-- Is the character no quote, line break or backslash, and so itself in a string? -/
def isPlainChar (c : Char) : Bool := c != '"' && c != '\n' && c != '\\'

/-- Plain characters up to the closing quote are read by `readText?` as their bytes. -/
theorem readText?_eq {cs : List Char} (hcs : cs.all isPlainChar = true) (rest : List Char) (fuel : Nat)
    (hfuel : cs.length < fuel) (read : Bytes) :
    readText? '"' fuel read (cs ++ '"' :: rest) =
      some (read ++ Bytes.ofString (String.ofList cs), rest) := by
  induction cs generalizing fuel read with
  | nil =>
    obtain ⟨fuel, rfl⟩ : ∃ f, fuel = f + 1 := ⟨fuel - 1, by simp at hfuel; omega⟩
    simp [readText?, Bytes.ofString_eq]
  | cons c cs ih =>
    rw [List.length_cons] at hfuel
    obtain ⟨fuel, rfl⟩ : ∃ f, fuel = f + 1 := ⟨fuel - 1, by omega⟩
    rw [List.all_cons, Bool.and_eq_true] at hcs
    have hplain := hcs.1
    simp only [isPlainChar, Bool.and_eq_true, bne_iff_ne] at hplain
    have hofList : String.ofList (c :: cs) = String.singleton c ++ String.ofList cs := by
      rw [← String.toList_inj]
      simp
    rw [List.cons_append, readText?, if_neg hplain.1.1, if_neg hplain.1.2, if_neg hplain.2,
      ih hcs.2 fuel (by omega), hofList, Bytes.ofString_append, List.append_assoc]

/-- A string of plain characters lexes as the token of its bytes, if no other string follows. -/
theorem Lexes.text {s : String} {rest : List Char} {fits : Prop} {t : Token} {ts : List Token}
    (hs : s.toList.all isPlainChar = true) (ht : ∀ bytes, t ≠ .text bytes)
    (h : Lexes rest fits (t :: ts)) :
    Lexes ('"' :: (s.toList ++ '"' :: rest)) fits (.text (Bytes.ofString s) :: t :: ts) := by
  have hcons : Token.cons (.text (Bytes.ofString s)) (t :: ts) = .text (Bytes.ofString s) :: t :: ts := by
    cases t with
    | text bytes => exact absurd rfl (ht bytes)
    | word | natural | decimal | mark => rfl
  rw [← hcons]
  refine token_of_eq (by decide) (by decide) ?_ (by simp; omega) h
  have hfuel : s.toList.length < (s.toList ++ '"' :: rest).length + 1 := by
    rw [List.length_append]
    omega
  have hread := readText?_eq hs rest _ hfuel []
  have hstart : isIdentifierStart '"' = false := by decide
  have hdigit : ('"' : Char).isDigit = false := by decide
  simp only [readToken?, hstart, hdigit, hread, String.ofList_toList]
  simp

/-! ## Numbers -/

/-- A digit continues an identifier. -/
theorem isIdentifierRest_of_isDigit {c : Char} (h : c.isDigit = true) : isIdentifierRest c = true := by
  simp [isIdentifierRest, Char.isAlphanum, h]

/-- A digit begins no identifier. -/
theorem isIdentifierStart_eq_false_of_isDigit {c : Char} (h : c.isDigit = true) :
    isIdentifierStart c = false := by
  have hne : c ≠ '_' := by
    rintro rfl
    cases h
  have halpha : c.isAlpha = false := by
    simp only [Char.isDigit, Bool.and_eq_true, decide_eq_true_eq] at h
    simp only [isAlpha_eq, isUpper_eq, isLower_eq, Bool.or_eq_false_iff,
      Bool.and_eq_false_imp, decide_eq_true_eq, decide_eq_false_iff_not]
    constructor <;> intro hle <;> simp_all [UInt32.le_iff_toNat_le] <;> omega
  simp [isIdentifierStart, halpha, hne]

/-- The digits of a number before characters apart are the longest prefix of digits. -/
theorem span_toDigits {rest : List Char} (hrest : IsApart rest) (n : Nat) :
    (Nat.toDigits 10 n ++ rest).takeWhile Char.isDigit = Nat.toDigits 10 n ∧
      (Nat.toDigits 10 n ++ rest).dropWhile Char.isDigit = rest := by
  have hall : ∀ c ∈ Nat.toDigits 10 n, c.isDigit = true := fun c hc => isDigit_of_mem_toDigits hc
  have hhead : ∀ c ∈ rest.head?, c.isDigit = false := by
    intro c hc
    have hnot := (hrest c hc).1
    cases hd : c.isDigit with
    | false => rfl
    | true =>
      rw [isIdentifierRest_of_isDigit hd] at hnot
      cases hnot
  rw [List.takeWhile_append_of_pos hall, List.dropWhile_append_of_pos hall]
  cases rest with
  | nil => simp
  | cons c rest => simp [hhead c rfl]

/-- Characters that do not begin with `0` are read by `readNaturalToken?` as decimal digits, if the value is
below `2 ^ 64`. -/
theorem readNaturalToken?_eq {cs : List Char} (h : cs.head? ≠ some '0') :
    readNaturalToken? cs =
      if digitsValue (cs.takeWhile Char.isDigit) < 2 ^ 64 then
        some (.natural (digitsValue (cs.takeWhile Char.isDigit)), cs.dropWhile Char.isDigit)
      else none := by
  unfold readNaturalToken?
  split
  rename_i n rest heq
  split at heq
  · exact absurd rfl h
  · obtain ⟨rfl, rfl⟩ := Prod.mk.inj heq
    rfl

/-- The digits of a positive number before characters apart are read by `readNumberToken?` exactly if the number
is below `2 ^ 64`. -/
theorem readNumberToken?_eq {rest : List Char} (hrest : IsApart rest) {n : Nat} (hn : 0 < n) :
    readNumberToken? (Nat.toDigits 10 n ++ rest) =
      if n < 2 ^ 64 then some (.natural n, rest) else none := by
  obtain ⟨htake, hdrop⟩ := span_toDigits hrest n
  have hdecimal : startsDecimal (Nat.toDigits 10 n ++ rest) = false := by
    unfold startsDecimal
    rw [hdrop]
    cases rest with
    | nil => rfl
    | cons c rest =>
      obtain ⟨hword, hpoint⟩ := hrest c rfl
      have he : c ≠ 'e' := by rintro rfl; exact absurd hword (by decide)
      have hE : c ≠ 'E' := by rintro rfl; exact absurd hword (by decide)
      simp [hpoint, he, hE]
  have hnatural : readNaturalToken? (Nat.toDigits 10 n ++ rest) =
      if n < 2 ^ 64 then some (.natural n, rest) else none := by
    have hzero : (Nat.toDigits 10 n ++ rest).head? ≠ some '0' := by
      have := head?_toDigits_ne_zero hn
      cases hd : Nat.toDigits 10 n with
      | nil => exact absurd hd Nat.toDigits_ne_nil
      | cons c cs =>
        rw [hd] at this
        exact this
    rw [readNaturalToken?_eq hzero, htake, hdrop, digitsValue_toDigits]
  have hend : (rest.head?.map isIdentifierRest).getD false = false := by
    cases hr : rest.head? with
    | none => rfl
    | some c => exact (hrest c (by simp [hr])).1
  unfold readNumberToken?
  rw [hdecimal, if_neg Bool.false_ne_true, hnatural]
  by_cases hlt : n < 2 ^ 64
  · rw [if_pos hlt]
    show (if (rest.head?.map isIdentifierRest).getD false then none else some (Token.natural n, rest)) = _
    rw [hend, if_neg Bool.false_ne_true]
  · rw [if_neg hlt]
    rfl

/-- The digits of a positive number before characters apart lex as its token, exactly if the number is below
`2 ^ 64`. -/
theorem Lexes.natural {rest : List Char} {fits : Prop} {ts : List Token} {n : Nat} (hn : 0 < n)
    (hrest : IsApart rest) (h : Lexes rest fits ts) :
    Lexes ((toString n).toList ++ rest) (n < 2 ^ 64 ∧ fits) (.natural n :: ts) := by
  have hnumber := readNumberToken?_eq hrest hn
  rw [Nat.toString_eq_repr, Nat.toList_repr]
  cases hd : Nat.toDigits 10 n with
  | nil => exact absurd hd Nat.toDigits_ne_nil
  | cons c cs =>
    rw [hd, List.cons_append] at hnumber
    have hdigit : c.isDigit = true := isDigit_of_mem_toDigits (n := n) (by simp [hd])
    have hne : ∀ d : Char, d.isDigit = false → c ≠ d := by
      rintro d hd rfl
      rw [hdigit] at hd
      cases hd
    have hblank : isBlank c = false := by
      simp [isBlank, hne ' ' (by decide), hne '\n' (by decide), hne '\t' (by decide),
        hne '\r' (by decide), hne '\x0b' (by decide), hne '\x0c' (by decide)]
    have hstart := isIdentifierStart_eq_false_of_isDigit hdigit
    rw [List.cons_append]
    refine token (t := .natural n) hblank (hne '/' (by decide)) (fun r => ?_) (by simp) h
    have hread : readToken? (c :: (cs ++ rest)) = readNumberToken? (c :: (cs ++ rest)) := by
      simp [readToken?, hstart, hdigit]
    rw [hread, hnumber]
    simp [eq_comm]

end Schema

end Tagwire
