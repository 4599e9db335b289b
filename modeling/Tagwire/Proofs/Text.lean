import Mathlib.Tactic.IntervalCases
import Tagwire.Number.Reading
import Tagwire.Text.Utf8

/-!
# Texts, their bytes and their digits

The bytes of a text are those of its characters in turn, they decode to the text again, and there are as
many of them as its size says.  The digits that a natural is written with have its value and begin with
zero only if it is zero.
-/

set_option autoImplicit false

namespace Tagwire

/-! ## Bytes of a text -/

/-- The loop that lists the bytes of an array puts what is left behind what it has gathered. -/
theorem toList_loop_eq (bytes : ByteArray) (i : Nat) (read : List UInt8) :
    ByteArray.toList.loop bytes i read = read.reverse ++ bytes.data.toList.drop i := by
  induction i, read using ByteArray.toList.loop.induct bytes with
  | case1 i read hlt ih =>
    have hsize : i < bytes.data.toList.length := hlt
    have hget : bytes.get! i = bytes.data.toList[i] := by
      show bytes.data[i]! = _
      rw [getElem!_pos bytes.data i hlt, Array.getElem_toList]
    rw [ByteArray.toList.loop, if_pos hlt, ih, hget, List.reverse_cons, List.append_assoc,
      List.singleton_append, ← List.drop_eq_getElem_cons hsize]
  | case2 i read hge =>
    have hsize : bytes.data.toList.length ≤ i := not_lt.mp hge
    rw [ByteArray.toList.loop, if_neg hge, List.drop_eq_nil_of_le hsize, List.append_nil]

/-- The bytes of an array in a list. -/
theorem toList_eq_data (bytes : ByteArray) : bytes.toList = bytes.data.toList := by
  rw [ByteArray.toList, toList_loop_eq]
  simp

namespace Bytes

/-- The bytes of a text are those it is represented by. -/
theorem ofString_eq (text : String) : ofString text = text.toByteArray.data.toList := by
  rw [ofString, toList_eq_data, String.toUTF8_eq_toByteArray]

/-- The bytes of two texts stand behind each other. -/
theorem ofString_append (a b : String) : ofString (a ++ b) = ofString a ++ ofString b := by
  simp [ofString_eq]

/-- There are as many bytes of a text as its size says. -/
theorem length_ofString (text : String) : (ofString text).length = text.utf8ByteSize := by
  rw [ofString_eq, Array.length_toList]
  exact String.size_toByteArray

/-- A text is determined by its bytes. -/
theorem ofString_injective : Function.Injective ofString := by
  intro a b h
  rw [ofString_eq, ofString_eq, Array.toList_inj] at h
  exact String.toByteArray_inj.mp (ByteArray.ext h)

end Bytes

namespace Utf8

/-- The bytes of a text decode to it. -/
@[simp] theorem decode?_ofString (text : String) : decode? (Bytes.ofString text) = some text := by
  have harray : ByteArray.mk (Bytes.ofString text).toArray = text.toByteArray := by
    rw [Bytes.ofString_eq]
  unfold decode? String.fromUTF8?
  rw [harray]
  simp [text.isValidUTF8, String.fromUTF8]

/-- What decodes is the bytes of a text. -/
theorem eq_ofString_of_decode? {bytes : Bytes} {text : String} (h : decode? bytes = some text) :
    bytes = Bytes.ofString text := by
  unfold decode? String.fromUTF8? at h
  split at h
  · rw [Option.some.injEq] at h
    rw [Bytes.ofString_eq, ← h]
    rfl
  · cases h

end Utf8

/-! ## Digits of a natural -/

/-- The value of digits with one more behind them. -/
theorem digitsValue_append_singleton (cs : List Char) (c : Char) :
    digitsValue (cs ++ [c]) = 10 * digitsValue cs + digitValue c := by
  simp [digitsValue]

/-- The value of the digit of a number below ten is the number. -/
theorem digitValue_digitChar {n : Nat} (h : n < 10) : digitValue n.digitChar = n := by
  interval_cases n <;> decide

/-- The digits of a natural have its value. -/
theorem digitsValue_toDigits (n : Nat) : digitsValue (Nat.toDigits 10 n) = n := by
  induction n using Nat.strong_induction_on with
  | _ n ih =>
    by_cases hn : n < 10
    · rw [Nat.toDigits_of_lt_base hn]
      simpa [digitsValue] using digitValue_digitChar hn
    · have hge : 10 ≤ n := not_lt.mp hn
      rw [Nat.toDigits_of_base_le (by decide) hge, digitsValue_append_singleton,
        ih (n / 10) (by omega), digitValue_digitChar (Nat.mod_lt n (by decide))]
      omega

/-- The digits of a natural are digits. -/
theorem isDigit_of_mem_toDigits {n : Nat} {c : Char} (h : c ∈ Nat.toDigits 10 n) : c.isDigit = true :=
  Nat.isDigit_of_mem_toDigits (by decide) (by decide) h

/-- The digits of a positive number do not begin with zero. -/
theorem head?_toDigits_ne_zero {n : Nat} (h : 0 < n) : (Nat.toDigits 10 n).head? ≠ some '0' := by
  induction n using Nat.strong_induction_on with
  | _ n ih =>
    by_cases hn : n < 10
    · rw [Nat.toDigits_of_lt_base hn]
      interval_cases n <;> decide
    · have hge : 10 ≤ n := not_lt.mp hn
      have hhead := ih (n / 10) (by omega) (by omega)
      rw [Nat.toDigits_of_base_le (by decide) hge]
      cases hd : Nat.toDigits 10 (n / 10) with
      | nil => exact absurd hd Nat.toDigits_ne_nil
      | cons c rest =>
        rw [hd] at hhead
        exact hhead

end Tagwire
