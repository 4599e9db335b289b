import Tagwire.Proofs.Time.Date
import Tagwire.Proofs.Time.Fraction
import Tagwire.Time.Timestamp

/-!
# Timestamps are read back

A timestamp of the years 1 to 9999 is read from its text, as seconds and billionths that make less than one.
-/

set_option autoImplicit false

namespace Tagwire

namespace Timestamp

/-! ## Dates -/

/-- The characters of a date whose year has four digits. -/
def dateChars (date : Date) : List Char :=
  (paddedDecimal 4 date.year.natAbs).toList ++
    '-' :: ((paddedDecimal 2 date.month).toList ++ '-' :: (paddedDecimal 2 date.day).toList)

/-- A date is read from its characters. -/
theorem readDate?_dateChars {date : Date} (hpos : 0 ≤ date.year) (hyear : date.year ≤ 9999)
    (hvalid : date.isValid = true) (rest : List Char) :
    readDate? (dateChars date ++ rest) = some (date, rest) := by
  obtain ⟨hmonth, hday⟩ := Date.month_le_and_day_le hvalid
  have hnatAbs : ((date.year.natAbs : Nat) : Int) = date.year := Int.natAbs_of_nonneg hpos
  rw [readDate?, dateChars, List.append_assoc, readFixedDigits?_paddedDecimal (by decide) (by omega)]
  dsimp only [Option.bind_eq_bind, Option.bind_some, List.cons_append]
  rw [readChar?, if_pos rfl, Option.bind_some, List.append_assoc,
    readFixedDigits?_paddedDecimal (by decide) (by omega)]
  dsimp only [Option.bind_some, List.cons_append]
  rw [readChar?, if_pos rfl, Option.bind_some, readFixedDigits?_paddedDecimal (by decide) (by omega), hnatAbs]
  rfl

/-! ## Times of day -/

/-- The characters of a time of day in seconds. -/
def clockChars (clock : Nat) : List Char :=
  (paddedDecimal 2 (clock / 3600)).toList ++
    ':' :: ((paddedDecimal 2 (clock / 60 % 60)).toList ++ ':' :: (paddedDecimal 2 (clock % 60)).toList)

/-- A time of day is read from its characters. -/
theorem readClock?_clockChars {clock : Nat} (h : clock < 86400) (rest : List Char) :
    readClock? (clockChars clock ++ rest) = some (clock, rest) := by
  have hfits : clock / 3600 < 24 ∧ clock / 60 % 60 < 60 ∧ clock % 60 ≤ 60 := by omega
  rw [readClock?, clockChars, List.append_assoc, readFixedDigits?_paddedDecimal (by decide) (by omega)]
  dsimp only [Option.bind_eq_bind, Option.bind_some, List.cons_append]
  rw [readChar?, if_pos rfl, Option.bind_some, List.append_assoc,
    readFixedDigits?_paddedDecimal (by decide) (by omega)]
  dsimp only [Option.bind_some, List.cons_append]
  rw [readChar?, if_pos rfl, Option.bind_some, readFixedDigits?_paddedDecimal (by decide) (by omega)]
  dsimp only [Option.bind_some]
  rw [if_pos hfits]
  exact congrArg (fun n => some (n, rest)) (by omega)

/-! ## Texts -/

/-- A timestamp is in range if its seconds are. -/
theorem isInRange_iff {t : Timestamp} :
    t.isInRange = true ↔ minSeconds ≤ t.seconds ∧ t.seconds ≤ maxSeconds := by
  rw [isInRange, Bool.and_eq_true, decide_eq_true_eq, decide_eq_true_eq]

/-- Billionths that make less than a second are none of them negative. -/
theorem nanos_normalized (t : Timestamp) : 0 ≤ t.normalized.nanos ∧ t.normalized.nanos < nanosPerSecond :=
  ⟨Int.emod_nonneg t.nanos (by decide), Int.emod_lt_of_pos t.nanos (by decide)⟩

/-- Once billionths make less than a second they stay as they are. -/
theorem normalized_normalized (t : Timestamp) : t.normalized.normalized = t.normalized := by
  obtain ⟨hlow, hhigh⟩ := nanos_normalized t
  generalize t.normalized = whole at *
  rw [normalized, Int.ediv_eq_zero_of_lt hlow hhigh, Int.emod_eq_of_lt hlow hhigh, Int.add_zero]

/-- The text of a timestamp is that of the timestamp with billionths below a second. -/
theorem text_normalized (t : Timestamp) : t.normalized.text = t.text := by
  rw [text, text, normalized_normalized]

/-- The days of timestamps in range. -/
theorem day_bounds {t : Timestamp} (h : t.isInRange = true) :
    -719162 ≤ t.seconds / 86400 ∧ t.seconds / 86400 ≤ 2932896 := by
  rw [isInRange_iff, minSeconds, maxSeconds] at h
  omega

/-- The characters of the text of a timestamp in range. -/
theorem toList_text {t : Timestamp} (h : t.normalized.isInRange = true) :
    t.text.toList = dateChars (Date.ofDayNumber (t.normalized.seconds / 86400)) ++
      'T' :: (clockChars (t.normalized.seconds % 86400).toNat ++
        ((fractionText t.normalized.nanos.toNat).toList ++ ['Z'])) := by
  obtain ⟨hlow, hhigh⟩ := day_bounds h
  obtain ⟨hyear, hyear'⟩ := Date.year_ofDayNumber hlow hhigh
  rw [text, yearText, if_neg (by omega), if_neg (by omega)]
  simp [dateChars, clockChars]

/-- A timestamp in range is read from its text. -/
theorem ofText?_text {t : Timestamp} (h : t.normalized.isInRange = true) : ofText? t.text = some t.normalized := by
  obtain ⟨hlow, hhigh⟩ := day_bounds h
  obtain ⟨hyear, hyear'⟩ := Date.year_ofDayNumber hlow hhigh
  have hvalid := Date.isValid_ofDayNumber (t.normalized.seconds / 86400)
  have hclock : (t.normalized.seconds % 86400).toNat < 86400 := by omega
  have hnanos := nanos_normalized t
  have hpart : t.normalized.nanos.toNat < 10 ^ 9 := by
    rw [nanosPerSecond] at hnanos
    omega
  rw [ofText?, toList_text h, readDate?_dateChars (by omega) hyear' hvalid]
  dsimp only [Option.bind_eq_bind, Option.bind_some]
  rw [readChar?, if_pos rfl, Option.bind_some, readClock?_clockChars hclock]
  dsimp only [Option.bind_some]
  rw [readFractionNanos?_fractionText hpart (by decide) (by decide)]
  dsimp only [Option.bind_some]
  rw [readOffset?]
  dsimp only [Option.bind_some]
  have hsame : (⟨(Date.ofDayNumber (t.normalized.seconds / 86400)).dayNumber * 86400 +
      (t.normalized.seconds % 86400).toNat - 0, t.normalized.nanos.toNat⟩ : Timestamp) = t.normalized := by
    rw [Date.dayNumber_ofDayNumber, Int.toNat_of_nonneg hnanos.1]
    have hsum : t.normalized.seconds / 86400 * 86400 + (t.normalized.seconds % 86400).toNat - 0 =
        t.normalized.seconds := by omega
    rw [hsum]
  rw [hsame, hvalid, h]
  rfl

end Timestamp

end Tagwire
