import Mathlib.Tactic.IntervalCases
import Tagwire.Text.Base64

/-!
# Base 64 comes back

Six bits have one character in the standard alphabet, which stands for them again and is no padding.  So
bytes are read from the text that writes them, three at a time.
-/

set_option autoImplicit false

namespace Tagwire

namespace Base64

/-- The character of six bits stands for them and is no padding. -/
theorem value?_symbol {n : Nat} (h : n < 64) :
    standard.value? (symbol n) = some n ∧ symbol n ≠ '=' := by
  revert h
  revert n
  decide

/-- The bytes of four characters of six bits. -/
theorem decodeLast_four {a b c d : Nat} (ha : a < 64) (hb : b < 64) (hc : c < 64) (hd : d < 64) :
    decodeLast standard [symbol a, symbol b, symbol c, symbol d] =
      some [UInt8.ofNat (a * 4 + b / 16), UInt8.ofNat (b % 16 * 16 + c / 4),
        UInt8.ofNat (c % 4 * 64 + d)] := by
  simp [decodeLast, value?_symbol ha, value?_symbol hb, value?_symbol hc, value?_symbol hd]

/-- The bytes of three characters of six bits. -/
theorem decodeLast_three {a b c : Nat} (ha : a < 64) (hb : b < 64) (hc : c < 64) :
    decodeLast standard [symbol a, symbol b, symbol c, '='] =
      some [UInt8.ofNat (a * 4 + b / 16), UInt8.ofNat (b % 16 * 16 + c / 4)] := by
  simp [decodeLast, value?_symbol ha, value?_symbol hb, value?_symbol hc]

/-- The byte of two characters of six bits. -/
theorem decodeLast_two {a b : Nat} (ha : a < 64) (hb : b < 64) :
    decodeLast standard [symbol a, symbol b, '=', '='] = some [UInt8.ofNat (a * 4 + b / 16)] := by
  simp [decodeLast, value?_symbol ha, value?_symbol hb]

/-- A number with the value of a byte is the byte. -/
theorem ofNat_eq_of_toNat {n : Nat} {b : UInt8} (h : n = b.toNat) : UInt8.ofNat n = b := by
  rw [h, UInt8.ofNat_toNat]

/-- Bytes are read from the characters that write them. -/
theorem decodeChars_encodeChars (bytes : Bytes) :
    decodeChars standard (encodeChars bytes) = some bytes := by
  induction bytes using encodeChars.induct with
  | case1 a b c rest ih =>
    have ha := a.toNat_lt
    have hb := b.toNat_lt
    have hc := c.toNat_lt
    rw [encodeChars]
    generalize hn : (a.toNat * 256 + b.toNat) * 256 + c.toNat = n
    have hlast := decodeLast_four (a := n / 2 ^ 18) (b := n / 2 ^ 12 % 64) (c := n / 2 ^ 6 % 64)
      (d := n % 64) (by omega) (by omega) (by omega) (by omega)
    rw [ofNat_eq_of_toNat (b := a) (by omega), ofNat_eq_of_toNat (b := b) (by omega),
      ofNat_eq_of_toNat (b := c) (by omega)] at hlast
    -- Whether four characters are the last ones shows in what follows them.
    cases hrest : encodeChars rest with
    | nil =>
      rw [hrest] at ih
      have hnil : [] = rest := Option.some.inj ih
      rw [← hnil]
      exact hlast
    | cons e more =>
      rw [hrest] at ih
      have hd : symbol (n % 64) ≠ '=' := (value?_symbol (by omega)).2
      rw [decodeChars, if_neg hd, hlast]
      dsimp only
      rw [ih, Option.map_some]
      rfl
  | case2 a b =>
    have ha := a.toNat_lt
    have hb := b.toNat_lt
    rw [encodeChars]
    generalize hn : a.toNat * 256 + b.toNat = n
    have hlast := decodeLast_three (a := n / 2 ^ 10) (b := n / 2 ^ 4 % 64) (c := n % 16 * 4)
      (by omega) (by omega) (by omega)
    rw [ofNat_eq_of_toNat (b := a) (by omega), ofNat_eq_of_toNat (b := b) (by omega)] at hlast
    exact hlast
  | case3 a =>
    have ha := a.toNat_lt
    have hlast := decodeLast_two (a := a.toNat / 4) (b := a.toNat % 4 * 16) (by omega) (by omega)
    rw [ofNat_eq_of_toNat (b := a) (by omega)] at hlast
    exact hlast
  | case4 => rfl

/-- Bytes are read from the text that writes them. -/
@[simp] theorem decode?_encode (bytes : Bytes) : decode? (encode bytes) = some bytes := by
  rw [decode?, encode, String.toList_ofList, decodeChars_encodeChars]

/-- Bytes are no more than the characters that write them. -/
theorem length_le_length_encode (bytes : Bytes) : bytes.length ≤ (encode bytes).length := by
  have hchars : ∀ bytes : Bytes, bytes.length ≤ (encodeChars bytes).length := by
    intro bytes
    induction bytes using encodeChars.induct with
    | case1 a b c rest ih => simpa [encodeChars] using ih.trans (Nat.le_succ _)
    | case2 a b => simp [encodeChars]
    | case3 a => simp [encodeChars]
    | case4 => exact Nat.zero_le _
  rw [encode, String.length_ofList]
  exact hchars bytes

end Base64

end Tagwire
