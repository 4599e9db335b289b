import Tagwire.Proofs.Time.Fraction
import Tagwire.Time.Duration

/-!
# Durations are read back

The text of a duration is read as a duration with this text.  It is not always the same duration: where seconds
and billionths have different signs, the text has a minus sign even if they are a positive span together.
-/

set_option autoImplicit false

namespace Tagwire

namespace Duration

/-- So many seconds and billionths, forward or backward. -/
def ofParts (negative : Bool) (whole part : Nat) : Duration :=
  if negative then ⟨-(whole : Int), -(part : Int)⟩ else ⟨whole, part⟩

/-- The text of a sign, of seconds and of billionths. -/
def partsText (negative : Bool) (whole part : Nat) : String :=
  (if negative then "-" else "") ++ toString whole ++ fractionText part ++ "s"

/-- A duration is in range if its seconds and its billionths are. -/
theorem isInRange_iff {d : Duration} :
    d.isInRange = true ↔ d.seconds.natAbs ≤ maxSeconds ∧ d.nanos.natAbs < 10 ^ 9 := by
  rw [isInRange, Bool.and_eq_true, decide_eq_true_eq, decide_eq_true_eq]
  rfl

/-- The text of a duration is that of its parts. -/
theorem text_eq (d : Duration) :
    d.text = partsText (decide (d.seconds < 0 ∨ d.nanos < 0)) d.normalized.seconds.natAbs
      d.normalized.nanos.natAbs := by
  simp only [text, partsText, decide_eq_true_eq]

/-- Seconds and billionths of one sign stay in range, and there are some where one of them was negative. -/
theorem normalized_natAbs {d : Duration} (h : d.isInRange = true) :
    d.normalized.seconds.natAbs ≤ maxSeconds ∧ d.normalized.nanos.natAbs < 10 ^ 9 ∧
      (d.seconds < 0 ∨ d.nanos < 0 →
        0 < d.normalized.seconds.natAbs ∨ 0 < d.normalized.nanos.natAbs) := by
  obtain ⟨hseconds, hnanos⟩ := isInRange_iff.mp h
  unfold normalized nanosPerSecond
  split
  · dsimp only
    omega
  · split
    · dsimp only
      omega
    · omega

/-- Parts are in range as a duration. -/
theorem isInRange_ofParts {negative : Bool} {whole part : Nat} (hwhole : whole ≤ maxSeconds)
    (hpart : part < 10 ^ 9) : (ofParts negative whole part).isInRange = true := by
  cases negative with
  | true => exact isInRange_iff.mpr ⟨by rwa [ofParts, if_pos rfl, Int.natAbs_neg],
      by rwa [ofParts, if_pos rfl, Int.natAbs_neg]⟩
  | false => exact isInRange_iff.mpr ⟨hwhole, hpart⟩

/-- Parts are read from their text. -/
theorem ofText?_partsText {negative : Bool} {whole part : Nat} (hwhole : whole ≤ maxSeconds)
    (hpart : part < 10 ^ 9) : ofText? (partsText negative whole part) = some (ofParts negative whole part) := by
  have hrange : (ofParts negative whole part).isInRange = true := isInRange_ofParts hwhole hpart
  have hdigits : ∀ c ∈ Nat.toDigits 10 whole, c.isDigit = true := fun _ hc => isDigit_of_mem_toDigits hc
  have hread : readDigits? (Nat.toDigits 10 whole) = some whole := by
    have hany : (Nat.toDigits 10 whole).any (!·.isDigit) = false := by simpa using hdigits
    rw [readDigits?, hany, digitsValue_toDigits]
    simp [Nat.toDigits_ne_nil]
  have hs : ('s').isDigit = false := by decide
  have hfraction := readFractionNanos?_fractionText hpart hs (by decide) []
  obtain ⟨first, others, hbehind, hfirst⟩ := exists_fractionText_append part hs []
  obtain ⟨htake, hdrop⟩ := span_isDigit hdigits hfirst others
  -- The sign is the first character, if there is one; a digit is none.
  have hlist : (partsText negative whole part).toList =
      (if negative then ['-'] else []) ++ (Nat.toDigits 10 whole ++ first :: others) := by
    rw [partsText, String.toList_append, String.toList_append, String.toList_append, Nat.toString_eq_repr,
      Nat.toList_repr, ← hbehind]
    cases negative <;> simp
  have hhead : ∀ rest, Nat.toDigits 10 whole ++ first :: others ≠ '-' :: rest := by
    intro rest heq
    cases hwritten : Nat.toDigits 10 whole with
    | nil => exact Nat.toDigits_ne_nil hwritten
    | cons digit more =>
      rw [hwritten] at heq
      have hdigit := hdigits digit (hwritten ▸ List.mem_cons_self)
      rw [(List.cons.inj heq).1] at hdigit
      cases hdigit
  generalize Nat.toDigits 10 whole ++ first :: others = cs at *
  rw [ofText?, hlist]
  split
  rename_i sign behind hsign
  obtain ⟨rfl, rfl⟩ : negative = sign ∧ cs = behind := by
    cases negative with
    | true =>
      cases hsign
      exact ⟨rfl, rfl⟩
    | false =>
      rw [if_neg Bool.false_ne_true, List.nil_append] at hsign
      split at hsign
      · exact absurd rfl (hhead _)
      · cases hsign
        exact ⟨rfl, rfl⟩
  rw [htake, hread, Option.bind_eq_bind, Option.bind_some, hdrop, ← hbehind, hfraction, Option.bind_eq_bind,
    Option.bind_some]
  exact if_pos ⟨rfl, hrange⟩

/-- The text of parts is theirs. -/
theorem text_ofParts {negative : Bool} {whole part : Nat} (h : negative = true → 0 < whole ∨ 0 < part) :
    (ofParts negative whole part).text = partsText negative whole part := by
  rw [text_eq]
  cases negative with
  | true =>
    have hpos := h rfl
    have hnegative : -(whole : Int) < 0 ∨ -(part : Int) < 0 := by omega
    have hnormalized : normalized ⟨-(whole : Int), -(part : Int)⟩ = ⟨-(whole : Int), -(part : Int)⟩ := by
      rw [normalized, if_neg (by dsimp only; omega), if_neg (by dsimp only; omega)]
    rw [ofParts, if_pos rfl, hnormalized, decide_eq_true hnegative, Int.natAbs_neg, Int.natAbs_neg,
      Int.natAbs_natCast, Int.natAbs_natCast]
  | false =>
    have hpositive : ¬((whole : Int) < 0 ∨ (part : Int) < 0) := by omega
    have hnormalized : normalized ⟨(whole : Int), (part : Int)⟩ = ⟨(whole : Int), (part : Int)⟩ := by
      rw [normalized, if_neg (by dsimp only; omega), if_neg (by dsimp only; omega)]
    rw [ofParts, if_neg Bool.false_ne_true, hnormalized, decide_eq_false hpositive, Int.natAbs_natCast,
      Int.natAbs_natCast]

/-- The text of a duration is read as one that has this text. -/
theorem exists_ofText?_text {d : Duration} (h : d.isInRange = true) :
    ∃ again, ofText? d.text = some again ∧ again.isInRange = true ∧ again.text = d.text := by
  obtain ⟨hwhole, hpart, hpos⟩ := normalized_natAbs h
  refine ⟨_, (congrArg ofText? d.text_eq).trans (ofText?_partsText hwhole hpart),
    isInRange_ofParts hwhole hpart, ?_⟩
  rw [text_ofParts fun hneg => hpos (of_decide_eq_true hneg), text_eq]

end Duration

end Tagwire
