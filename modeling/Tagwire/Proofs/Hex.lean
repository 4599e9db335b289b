import Tagwire.Proofs.Cipher.Block
import Tagwire.Proofs.Except
import Tagwire.Proofs.Text
import Tagwire.Text.Blank
import Tagwire.Text.Hex

/-!
# Bytes in hexadecimal

Bytes are read from the digits that they are written with.  Nothing else is read as these bytes but the same
digits with letters of the other case: a text with anything around the digits is longer than they are.
-/

set_option autoImplicit false

namespace Tagwire

/-- A text without white space is not trimmed. -/
theorem trimmed_eq {text : String} (h : ∀ c ∈ text.toList, isWhiteSpace c = false) :
    trimmed text = text := by
  have hdrop : ∀ cs : List Char, (∀ c ∈ cs, isWhiteSpace c = false) → cs.dropWhile isWhiteSpace = cs := by
    intro cs hcs
    cases cs with
    | nil => rfl
    | cons c cs => rw [List.dropWhile_cons_of_neg (by simp [hcs c (by simp)])]
  rw [trimmed, hdrop _ h, hdrop _ fun c hc => h c (List.mem_reverse.mp hc), List.reverse_reverse,
    String.ofList_toList]

/-- A text that does not get shorter is not trimmed. -/
theorem trimmed_eq_of_le {text : String} (h : text.utf8ByteSize ≤ (trimmed text).utf8ByteSize) :
    trimmed text = text := by
  obtain ⟨before, hbefore⟩ := List.dropWhile_suffix (p := isWhiteSpace) (l := text.toList)
  obtain ⟨after, hafter⟩ := List.dropWhile_suffix (p := isWhiteSpace)
    (l := (text.toList.dropWhile isWhiteSpace).reverse)
  have hkept : text.toList.dropWhile isWhiteSpace = (trimmed text).toList ++ after.reverse := by
    rw [trimmed, String.toList_ofList, ← List.reverse_append, hafter, List.reverse_reverse]
  have htext : text = String.ofList before ++ (trimmed text ++ String.ofList after.reverse) := by
    rw [← String.toList_inj, String.toList_append, String.toList_append, String.toList_ofList,
      String.toList_ofList, ← hkept, hbefore]
  have hbytes := congrArg Bytes.ofString htext
  rw [Bytes.ofString_append, Bytes.ofString_append] at hbytes
  -- What is cut off has no bytes.
  have hlength := congrArg List.length hbytes
  rw [List.length_append, List.length_append, Bytes.length_ofString text,
    Bytes.length_ofString (trimmed text)] at hlength
  have hfront : Bytes.ofString (String.ofList before) = [] := List.length_eq_zero_iff.mp (by omega)
  have hback : Bytes.ofString (String.ofList after.reverse) = [] := List.length_eq_zero_iff.mp (by omega)
  rw [hfront, hback, List.append_nil, List.nil_append] at hbytes
  exact (Bytes.ofString_injective hbytes).symm

namespace Hex

/-! ## Digits -/

/-- The digits of a byte have the values of its halves, which make the byte again. -/
theorem value?_digits (b : UInt8) : value? (digit (b >>> 4)) = some (b >>> 4) ∧
    value? (digit (b &&& 0x0F)) = some (b &&& 0x0F) ∧ (b >>> 4) <<< 4 ||| b &&& 0x0F = b :=
  forall_byte (p := fun b => value? (digit (b >>> 4)) = some (b >>> 4) ∧
    value? (digit (b &&& 0x0F)) = some (b &&& 0x0F) ∧ (b >>> 4) <<< 4 ||| b &&& 0x0F = b)
    (by decide +kernel) b

/-- There are two digits to a byte. -/
theorem length_encodeBytes (bytes : Bytes) : (encodeBytes bytes).length = 2 * bytes.length := by
  induction bytes with
  | nil => rfl
  | cons b rest ih =>
    rw [encodeBytes, List.length_cons, List.length_cons, ih, List.length_cons]
    omega

/-- The digits of bytes are digits. -/
theorem isSome_value?_encodeBytes (bytes : Bytes) :
    ∀ c ∈ encodeBytes bytes, (value? c).isSome = true := by
  induction bytes with
  | nil => simp [encodeBytes]
  | cons b rest ih =>
    obtain ⟨hhigh, hlow, -⟩ := value?_digits b
    simp only [encodeBytes, List.forall_mem_cons]
    exact ⟨by rw [hhigh]; rfl, by rw [hlow]; rfl, ih⟩

/-- The digits of bytes write them. -/
theorem decodePairs_encodeBytes (bytes : Bytes) (index : Nat) :
    decodePairs index (encodeBytes bytes) = .ok bytes := by
  induction bytes generalizing index with
  | nil => rfl
  | cons b rest ih =>
    obtain ⟨hhigh, hlow, hbyte⟩ := value?_digits b
    simp only [encodeBytes, decodePairs, hhigh, hlow, ih, Except.map, hbyte]

/-- A digit is a visible character of one byte. -/
theorem digit_spec {c : UInt8} (h : (value? c).isSome = true) :
    String.utf8EncodeChar (Char.ofNat c.toNat) = [c] ∧ isWhiteSpace (Char.ofNat c.toNat) = false :=
  forall_byte (p := fun c => (value? c).isSome = true →
    String.utf8EncodeChar (Char.ofNat c.toNat) = [c] ∧ isWhiteSpace (Char.ofNat c.toNat) = false)
    (by decide +kernel) c h

/-- The bytes of a text of digits are their codes. -/
theorem ofString_ofCodes {codes : Bytes} (h : ∀ c ∈ codes, (value? c).isSome = true) :
    Bytes.ofString (ofCodes codes) = codes := by
  induction codes with
  | nil => rw [ofCodes, List.map_nil, Bytes.ofString_eq]; rfl
  | cons c codes ih =>
    rw [List.forall_mem_cons] at h
    have hfirst : Bytes.ofString (String.singleton (Char.ofNat c.toNat)) = [c] := by
      rw [Bytes.ofString_eq, String.toByteArray_singleton, List.utf8Encode_singleton,
        (digit_spec h.1).1]
      simp
    rw [ofCodes, List.map_cons, String.ofList_cons, Bytes.ofString_append, hfirst]
    exact congrArg (c :: ·) (ih h.2)

/-- A text of digits is not trimmed. -/
theorem trimmed_ofCodes {codes : Bytes} (h : ∀ c ∈ codes, (value? c).isSome = true) :
    trimmed (ofCodes codes) = ofCodes codes := by
  apply trimmed_eq
  intro c hc
  rw [ofCodes, String.toList_ofList] at hc
  obtain ⟨code, hcode, rfl⟩ := List.mem_map.mp hc
  exact (digit_spec (h code hcode)).2

/-! ## Letter case -/

/-- Is it the code of a digit, or of one of the lower-case letters that stand for digits? -/
def isLowerDigit (c : UInt8) : Bool := (0x30 ≤ c && c ≤ 0x39) || (0x61 ≤ c && c ≤ 0x66)

/-- The code of a letter in lower case. -/
def lowered (c : UInt8) : UInt8 := if 0x41 ≤ c ∧ c ≤ 0x5A then c + 0x20 else c

/-- The letter case of a digit does not change its value, which is written with the digit in lower case, and
a code is brought into lower case as its character is. -/
theorem lowered_spec (c : UInt8) :
    value? (lowered c) = value? c ∧ (isLowerDigit c = true → lowered c = c) ∧
      (value? c).all (fun v => digit v = lowered c ∧ isLowerDigit (digit v) ∧ v < 16) = true ∧
      (Char.ofNat c.toNat).toLower = Char.ofNat (lowered c).toNat :=
  forall_byte (p := fun c => value? (lowered c) = value? c ∧ (isLowerDigit c = true → lowered c = c) ∧
      (value? c).all (fun v => digit v = lowered c ∧ isLowerDigit (digit v) ∧ v < 16) = true ∧
      (Char.ofNat c.toNat).toLower = Char.ofNat (lowered c).toNat) (by decide +kernel) c

/-- A digit in lower case is the one that its value, which is below sixteen, is written with. -/
theorem digit_of_value? {c v : UInt8} (h : value? c = some v) :
    digit v = lowered c ∧ isLowerDigit (digit v) = true ∧ v < 16 := by
  have hdigit := (lowered_spec c).2.2.1
  rw [h] at hdigit
  exact of_decide_eq_true hdigit

/-- Bytes are written in lower-case digits. -/
theorem isLowerDigit_encodeBytes (bytes : Bytes) : ∀ c ∈ encodeBytes bytes, isLowerDigit c = true := by
  induction bytes with
  | nil => simp [encodeBytes]
  | cons b rest ih =>
    obtain ⟨hhigh, hlow, -⟩ := value?_digits b
    simp only [encodeBytes, List.forall_mem_cons]
    exact ⟨(digit_of_value? hhigh).2.1, (digit_of_value? hlow).2.1, ih⟩

/-- Two values below sixteen are the halves of the byte that they make. -/
theorem halves {high low : UInt8} (hhigh : high < 16) (hlow : low < 16) :
    (high <<< 4 ||| low) >>> 4 = high ∧ (high <<< 4 ||| low) &&& 0x0F = low := by
  have hall : ∀ h l : Fin 16, (UInt8.ofNat h.val <<< 4 ||| UInt8.ofNat l.val) >>> 4 = UInt8.ofNat h.val ∧
      (UInt8.ofNat h.val <<< 4 ||| UInt8.ofNat l.val) &&& 0x0F = UInt8.ofNat l.val := by
    decide
  have hbyte := hall ⟨high.toNat, hhigh⟩ ⟨low.toNat, hlow⟩
  simpa only [UInt8.ofNat_toNat] using hbyte

/-- Digits that write bytes are, in lower case, those that the bytes are written with. -/
theorem encodeBytes_of_decodePairs {index : Nat} {digits bytes : Bytes} (heven : digits.length % 2 = 0)
    (h : decodePairs index digits = .ok bytes) :
    encodeBytes bytes = digits.map lowered ∧ ∀ c ∈ digits, (value? c).isSome = true := by
  fun_induction decodePairs index digits generalizing bytes with
  | case1 index high low rest hhigh => cases h
  | case2 index high low rest a hhigh hlow => cases h
  | case3 index high low rest a hhigh b hlow ih =>
    obtain ⟨others, hothers, rfl⟩ := map_eq_ok_iff.mp h
    rw [List.length_cons, List.length_cons] at heven
    obtain ⟨hrest, hdigits⟩ := ih (by omega) hothers
    obtain ⟨hhighDigit, -, hhighValue⟩ := digit_of_value? hhigh
    obtain ⟨hlowDigit, -, hlowValue⟩ := digit_of_value? hlow
    obtain ⟨hupper, hlower⟩ := halves hhighValue hlowValue
    refine ⟨?_, ?_⟩
    · rw [encodeBytes, hupper, hlower, hhighDigit, hlowDigit, hrest, List.map_cons, List.map_cons]
    · simp only [List.forall_mem_cons]
      exact ⟨by rw [hhigh]; rfl, by rw [hlow]; rfl, hdigits⟩
  | case4 digits index hpair =>
    -- No pair is left, and an even number of digits.
    cases h
    match digits, hpair, heven with
    | [], _, _ => exact ⟨rfl, by simp⟩
    | [c], _, heven => cases heven
    | high :: low :: rest, hpair, _ => exact absurd rfl (hpair high low rest)

/-- Digits write bytes. -/
theorem exists_decodePairs {digits : Bytes} (h : ∀ c ∈ digits, (value? c).isSome = true) (index : Nat) :
    ∃ bytes, decodePairs index digits = .ok bytes := by
  fun_induction decodePairs index digits with
  | case1 index high low rest hhigh =>
    rw [List.forall_mem_cons, hhigh] at h
    cases h.1
  | case2 index high low rest a hhigh hlow =>
    rw [List.forall_mem_cons, List.forall_mem_cons, hlow] at h
    cases h.2.1
  | case3 index high low rest a hhigh b hlow ih =>
    obtain ⟨bytes, hbytes⟩ := ih fun c hc => h c (List.mem_cons_of_mem _ (List.mem_cons_of_mem _ hc))
    exact ⟨_, by rw [hbytes]; rfl⟩
  | case4 digits index hpair => exact ⟨[], rfl⟩

/-- Bytes are determined by the digits that they are written with. -/
theorem encodeBytes_injective : Function.Injective encodeBytes := by
  intro a b h
  have ha := decodePairs_encodeBytes a 0
  rw [h, decodePairs_encodeBytes] at ha
  exact (Except.ok.inj ha).symm

/-- A text is brought into lower case character by character. -/
theorem toList_toLower (text : String) : text.toLower.toList = text.toList.map Char.toLower :=
  String.toList_map

/-- Lower case is that of the codes. -/
theorem toLower_ofCodes (codes : Bytes) : (ofCodes codes).toLower = ofCodes (codes.map lowered) := by
  rw [← String.toList_inj, toList_toLower, ofCodes, ofCodes, String.toList_ofList,
    String.toList_ofList, List.map_map, List.map_map]
  exact List.map_congr_left fun c _ => (lowered_spec c).2.2.2

/-- A character has the code that it is made of. -/
theorem toNat_ofNat (c : UInt8) : (Char.ofNat c.toNat).toNat = c.toNat := by
  rw [Char.ofNat, dif_pos (.inl (Nat.lt_trans c.toNat_lt (by decide)))]
  rfl

/-- A character that has a code in lower case has a code. -/
theorem ofNat_toNat_of_toLower {c : Char} {code : UInt8} (h : c.toLower = Char.ofNat code.toNat) :
    Char.ofNat (UInt8.ofNat c.toNat).toNat = c := by
  have hsmall : c.toNat < 256 := by
    unfold Char.toLower at h
    split at h
    · rename_i hupper
      have hle : c.toNat ≤ 90 := hupper.2
      omega
    · rw [h, toNat_ofNat]
      exact code.toNat_lt
  rw [UInt8.toNat_ofNat', Nat.mod_eq_of_lt hsmall, Char.ofNat_toNat]

/-- A text that has codes in lower case has codes. -/
theorem exists_ofCodes_of_toLower {text : String} {codes : Bytes} (h : text.toLower = ofCodes codes) :
    ∃ own : Bytes, text = ofCodes own ∧ own.map lowered = codes := by
  have hchars := congrArg String.toList h
  rw [toList_toLower, ofCodes, String.toList_ofList] at hchars
  have hown : text = ofCodes (text.toList.map fun c => UInt8.ofNat c.toNat) := by
    rw [← String.toList_inj, ofCodes, String.toList_ofList, List.map_map]
    refine ((List.map_congr_left fun c hc => ?_).trans (List.map_id _)).symm
    obtain ⟨code, -, hcode⟩ := List.mem_map.mp (hchars ▸ List.mem_map_of_mem (f := Char.toLower) hc)
    exact ofNat_toNat_of_toLower hcode.symm
  refine ⟨_, hown, ?_⟩
  rw [hown, toLower_ofCodes, ofCodes, ofCodes, String.ofList_inj] at h
  have hcodes := congrArg (List.map fun c => UInt8.ofNat c.toNat) h
  simpa [List.map_map, Function.comp_def, toNat_ofNat] using hcodes

/-! ## Reading -/

/-- Bytes are read from a text, which may have nothing around it, exactly when the text is what the bytes are
written as, up to the case of letters. -/
theorem decode_trimmed_eq_ok_iff {text : String} {bytes : Bytes} :
    text.utf8ByteSize = 2 * bytes.length ∧ decode (trimmed text) = .ok bytes ↔
      text.toLower = encode bytes := by
  constructor
  · rintro ⟨hsize, hdecode⟩
    unfold decode decodeBytes at hdecode
    split at hdecode
    · cases hdecode
    · rename_i heven
      obtain ⟨hcodes, hdigits⟩ := encodeBytes_of_decodePairs (by omega) hdecode
      -- The digits are as long as the whole text.
      have hlength := congrArg List.length hcodes
      rw [length_encodeBytes, List.length_map, Bytes.length_ofString] at hlength
      rw [trimmed_eq_of_le (by omega)] at hcodes hdigits
      have htext : text = ofCodes (Bytes.ofString text) :=
        Bytes.ofString_injective (ofString_ofCodes hdigits).symm
      rw [htext, toLower_ofCodes, ← hcodes]
      rfl
  · intro htext
    obtain ⟨codes, rfl, hcodes⟩ := exists_ofCodes_of_toLower htext
    have hdigits : ∀ c ∈ codes, (value? c).isSome = true := by
      intro c hc
      rw [← (lowered_spec c).1]
      exact isSome_value?_encodeBytes bytes _ (hcodes ▸ List.mem_map_of_mem hc)
    have hlength := congrArg List.length hcodes
    rw [length_encodeBytes, List.length_map] at hlength
    obtain ⟨read, hread⟩ := exists_decodePairs hdigits 0
    have hsame := (encodeBytes_of_decodePairs (by omega) hread).1
    rw [hcodes] at hsame
    rw [trimmed_ofCodes hdigits, decode, ← Bytes.length_ofString, ofString_ofCodes hdigits, decodeBytes,
      if_neg (by omega), hread, encodeBytes_injective hsame]
    exact ⟨hlength, rfl⟩

/-- What bytes are written as has no letter to bring into lower case. -/
theorem toLower_encode (bytes : Bytes) : (encode bytes).toLower = encode bytes := by
  rw [encode, toLower_ofCodes]
  have hsame : (encodeBytes bytes).map lowered = (encodeBytes bytes).map id :=
    List.map_congr_left fun c hc => (lowered_spec c).2.1 (isLowerDigit_encodeBytes bytes c hc)
  rw [hsame, List.map_id]

end Hex

end Tagwire
