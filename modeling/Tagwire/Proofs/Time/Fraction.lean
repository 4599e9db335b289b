import Mathlib.Data.List.Induction
import Mathlib.Data.Nat.Digits.Defs
import Mathlib.Tactic.Ring
import Tagwire.Proofs.Text
import Tagwire.Time.Fraction

/-!
# Digits of a fixed number

A natural that is written with zeros in front of it is read from as many digits as it has then.  A fraction of a
second is read from its text whatever stands behind it, unless this goes on with digits.
-/

set_option autoImplicit false

namespace Tagwire

/-! ## Zeros in front and behind -/

/-- Digits count as many times ten as there are digits behind them. -/
theorem digitsValue_append (cs ds : List Char) :
    digitsValue (cs ++ ds) = digitsValue cs * 10 ^ ds.length + digitsValue ds := by
  induction ds using List.reverseRecOn with
  | nil => simp [digitsValue]
  | append_singleton ds d ih =>
    rw [← List.append_assoc, digitsValue_append_singleton, ih, digitsValue_append_singleton,
      List.length_append, List.length_singleton, pow_succ]
    ring

/-- Zeros have no value. -/
theorem digitsValue_replicate_zero (count : Nat) : digitsValue (List.replicate count '0') = 0 := by
  induction count with
  | zero => rfl
  | succ count ih =>
    rw [List.replicate_succ', digitsValue_append_singleton, ih]
    rfl

/-- Zeros in front of digits do not change their value. -/
theorem digitsValue_paddedDecimal (width n : Nat) : digitsValue (paddedDecimal width n).toList = n := by
  rw [paddedDecimal, String.toList_ofList, digitsValue_append, digitsValue_replicate_zero, Nat.zero_mul,
    Nat.zero_add, digitsValue_toDigits]

/-- A natural that fits the digits is written with as many. -/
theorem length_paddedDecimal {width n : Nat} (hwidth : 0 < width) (h : n < 10 ^ width) :
    (paddedDecimal width n).toList.length = width := by
  have hle := Nat.toDigits_length 10 n width hwidth h
  rw [paddedDecimal, String.toList_ofList, List.length_append, List.length_replicate]
  exact Nat.sub_add_cancel hle

/-- A natural is written with digits only. -/
theorem isDigit_of_mem_paddedDecimal {width n : Nat} {c : Char} (h : c ∈ (paddedDecimal width n).toList) :
    c.isDigit = true := by
  rw [paddedDecimal, String.toList_ofList, List.mem_append] at h
  rcases h with h | h
  · rw [List.eq_of_mem_replicate h]
    rfl
  · exact isDigit_of_mem_toDigits h

/-- A natural is read from its digits if there are as many of them as are read. -/
theorem readFixedDigits?_paddedDecimal {width n : Nat} (hwidth : 0 < width) (h : n < 10 ^ width)
    (rest : List Char) :
    readFixedDigits? width ((paddedDecimal width n).toList ++ rest) = some (n, rest) := by
  have hlength := length_paddedDecimal hwidth h
  have hdigits : (paddedDecimal width n).toList.all Char.isDigit = true :=
    List.all_eq_true.mpr fun c hc => isDigit_of_mem_paddedDecimal hc
  rw [readFixedDigits?, List.take_left' hlength, List.drop_left' hlength, if_pos ⟨hlength, hdigits⟩,
    digitsValue_paddedDecimal]

/-! ## Digits and what stands behind them -/

/-- Digits end where something else begins. -/
theorem span_isDigit {digits : List Char} (h : ∀ c ∈ digits, c.isDigit = true) {next : Char}
    (hnext : next.isDigit = false) (rest : List Char) :
    (digits ++ next :: rest).takeWhile Char.isDigit = digits ∧
      (digits ++ next :: rest).dropWhile Char.isDigit = next :: rest := by
  have hstop : ¬next.isDigit = true := by simp [hnext]
  rw [List.takeWhile_append_of_pos h, List.dropWhile_append_of_pos h, List.takeWhile_cons_of_neg hstop,
    List.dropWhile_cons_of_neg hstop, List.append_nil]
  exact ⟨rfl, rfl⟩

/-! ## Fractions -/

/-- Nine digits count, and those that are not there are zeros. -/
theorem fractionNanos_paddedDecimal {width n : Nat} (hwidth : 0 < width) (hle : width ≤ 9)
    (h : n < 10 ^ width) : fractionNanos (paddedDecimal width n).toList = n * 10 ^ (9 - width) := by
  have hlength := length_paddedDecimal hwidth h
  rw [fractionNanos, List.take_append, List.take_of_length_le (hlength.trans_le hle), hlength,
    List.take_replicate, Nat.min_eq_left (Nat.sub_le 9 width), digitsValue_append,
    digitsValue_paddedDecimal, digitsValue_replicate_zero, List.length_replicate, Nat.add_zero]

/-- The digits behind a point are read as billionths. -/
theorem readFractionNanos?_paddedDecimal {width n : Nat} (hwidth : 0 < width) (hle : width ≤ 9)
    (h : n < 10 ^ width) {next : Char} (hnext : next.isDigit = false) (rest : List Char) :
    readFractionNanos? (("." ++ paddedDecimal width n).toList ++ next :: rest) =
      some (n * 10 ^ (9 - width), next :: rest) := by
  obtain ⟨htake, hdrop⟩ := span_isDigit
    (fun c hc => isDigit_of_mem_paddedDecimal (show c ∈ (paddedDecimal width n).toList from hc)) hnext rest
  have hne : (paddedDecimal width n).toList.isEmpty = false := by
    rw [List.isEmpty_eq_false_iff, ← List.length_pos_iff, length_paddedDecimal hwidth h]
    exact hwidth
  rw [String.toList_append]
  show readFractionNanos? ('.' :: ((paddedDecimal width n).toList ++ next :: rest)) = _
  rw [readFractionNanos?]
  show (if _ then _ else _) = _
  rw [htake, hdrop, hne, if_neg Bool.false_ne_true, fractionNanos_paddedDecimal hwidth hle h]

/-- Billionths below a second are read from their text. -/
theorem readFractionNanos?_fractionText {nanos : Nat} (h : nanos < 10 ^ 9) {next : Char}
    (hnext : next.isDigit = false) (hpoint : next ≠ '.') (rest : List Char) :
    readFractionNanos? ((fractionText nanos).toList ++ next :: rest) = some (nanos, next :: rest) := by
  unfold fractionText
  split
  · rename_i hzero
    subst hzero
    show readFractionNanos? (next :: rest) = _
    rw [readFractionNanos?]
    rintro _ heq
    exact hpoint (List.cons.inj heq).1
  · split
    · rw [readFractionNanos?_paddedDecimal (by decide) (by decide) (by omega) hnext]
      exact congrArg (fun n => some (n, next :: rest)) (by omega)
    · split
      · rw [readFractionNanos?_paddedDecimal (by decide) (by decide) (by omega) hnext]
        exact congrArg (fun n => some (n, next :: rest)) (by omega)
      · rw [readFractionNanos?_paddedDecimal (by decide) (by decide) h hnext]
        exact congrArg (fun n => some (n, next :: rest)) (Nat.mul_one nanos)

/-- A fraction begins with a point, if there is one. -/
theorem exists_fractionText_append (nanos : Nat) {next : Char} (hnext : next.isDigit = false)
    (rest : List Char) :
    ∃ first others, (fractionText nanos).toList ++ next :: rest = first :: others ∧ first.isDigit = false := by
  have hpoint : ∀ text : String, ∃ first others,
      ("." ++ text).toList ++ next :: rest = first :: others ∧ first.isDigit = false := by
    intro text
    rw [String.toList_append]
    exact ⟨'.', text.toList ++ next :: rest, rfl, by decide⟩
  unfold fractionText
  split
  · exact ⟨next, rest, rfl, hnext⟩
  · split
    · exact hpoint _
    · split <;> exact hpoint _

end Tagwire
