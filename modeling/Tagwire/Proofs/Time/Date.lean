import Mathlib.Order.Interval.Set.Basic
import Tagwire.Time.Date

/-!
# Dates and day numbers

The day of an era of four hundred years tells its year: without the leap days before it, every year has 365 of
them.  The number of days before a month has been reached tells the month.  So the date of a day number has this
number again, and is a day of the calendar.
-/

set_option autoImplicit false

namespace Tagwire

namespace Date

/-! ## Days of the calendar -/

/-- A month has 31 days at most. -/
theorem monthLength_le (year : Int) (month : Nat) : monthLength year month ≤ 31 := by
  unfold monthLength
  split
  · split <;> decide
  · split <;> decide

/-- The month and the day of a date are small numbers. -/
theorem month_le_and_day_le {date : Date} (h : date.isValid = true) : date.month ≤ 12 ∧ date.day ≤ 31 := by
  rw [isValid, Bool.and_eq_true, Bool.and_eq_true, Bool.and_eq_true] at h
  obtain ⟨⟨⟨-, hmonth⟩, -⟩, hday⟩ := h
  exact ⟨of_decide_eq_true hmonth, (of_decide_eq_true hday).trans (monthLength_le _ _)⟩

/-! ## Years of an era -/

/-- The days of an era before one of its years; the era itself ends with a leap day. -/
def yearStart (year : Int) : Int := 365 * year + year / 4 - year / 100 + year / 400

/-- A day of an era without the leap days up to it. -/
def withoutLeapDays (day : Int) : Int := day - day / 1460 + day / 36524 - day / 146096

/-- Within an era no day comes before the one before it. -/
theorem withoutLeapDays_le_succ {day : Int} (h0 : 0 ≤ day) (h : day < 146096) :
    withoutLeapDays day ≤ withoutLeapDays (day + 1) := by
  unfold withoutLeapDays
  omega

/-- Within an era no day comes before an earlier one. -/
theorem withoutLeapDays_mono {day : Int} (h0 : 0 ≤ day) (count : Nat) (h : day + count < eraDays) :
    withoutLeapDays day ≤ withoutLeapDays (day + count) := by
  unfold eraDays at h
  induction count with
  | zero => exact le_of_eq (congrArg withoutLeapDays (Int.add_zero day).symm)
  | succ count ih =>
    refine (ih (by omega)).trans ?_
    have hstep := withoutLeapDays_le_succ (show 0 ≤ day + count by omega) (by omega)
    rwa [Int.add_assoc] at hstep

/-- Without leap days a year begins after 365 days for every year before it, and ends before as many more. -/
theorem withoutLeapDays_yearStart : ∀ year : Nat, year < 400 →
    365 * (year : Int) ≤ withoutLeapDays (yearStart year) ∧
      withoutLeapDays (yearStart (year + 1) - 1) < 365 * (year + 1) := by
  decide +kernel

/-- The year of a day of an era begins on this day or before it, and the next year begins after it. -/
theorem yearStart_le_and_lt {day year : Int} (h0 : 0 ≤ day) (h : day < eraDays)
    (hyear : year = withoutLeapDays day / 365) :
    0 ≤ year ∧ year < 400 ∧ yearStart year ≤ day ∧ day < yearStart (year + 1) := by
  unfold eraDays at h
  have hmono : ∀ {a b : Int}, 0 ≤ a → a ≤ b → b < 146097 → withoutLeapDays a ≤ withoutLeapDays b := by
    intro a b ha hab hb
    have hle := withoutLeapDays_mono ha (b - a).toNat (by unfold eraDays; omega)
    rwa [show a + ((b - a).toNat : Int) = b by omega] at hle
  have hlow : 0 ≤ withoutLeapDays day := hmono (le_refl 0) h0 h
  have hhigh : withoutLeapDays day ≤ withoutLeapDays 146096 := hmono h0 (by omega) (by omega)
  have hlast : withoutLeapDays 146096 = 145999 := by decide
  have hyear0 : 0 ≤ year := by omega
  have hyear400 : year < 400 := by omega
  obtain ⟨count, rfl⟩ := Int.eq_ofNat_of_zero_le hyear0
  refine ⟨hyear0, hyear400, ?_, ?_⟩
  · by_contra hbefore
    -- The day would be in the year before.
    have hpos : count ≠ 0 := by
      rintro rfl
      exact hbefore h0
    obtain ⟨_, hend⟩ := withoutLeapDays_yearStart (count - 1) (by omega)
    rw [show ((count - 1 : Nat) : Int) + 1 = count by omega] at hend
    have hle := hmono h0 (show day ≤ yearStart count - 1 by omega) (by unfold yearStart; omega)
    omega
  · by_contra hafter
    -- The day would be in a later year.
    have hlt : count + 1 < 400 := by
      by_contra hge
      obtain rfl : count = 399 := by omega
      exact hafter (h.trans_le (by decide))
    obtain ⟨hbegin, _⟩ := withoutLeapDays_yearStart (count + 1) hlt
    push_cast at hbegin
    have hle := hmono (show 0 ≤ yearStart (count + 1) by unfold yearStart; omega)
      (show yearStart (count + 1) ≤ day by omega) h
    omega

/-! ## Dates of day numbers -/

/-- An era, a year of it, a month from March on and a day of the year, with the number of the day. -/
structure IsParted (n era year dayOfYear month : Int) : Prop where
  year_nonneg : 0 ≤ year
  year_lt : year < 400
  day_nonneg : 0 ≤ dayOfYear
  day_lt : dayOfYear < yearStart (year + 1) - yearStart year
  month_eq : month = (5 * dayOfYear + 2) / 153
  number : n + epochDay = era * eraDays + yearStart year + dayOfYear

/-- Every day number has such parts, and they make its date. -/
theorem exists_isParted (n : Int) :
    ∃ era year dayOfYear month, IsParted n era year dayOfYear month ∧
      ofDayNumber n =
        { year := if (month + 2) % 12 + 1 ≤ 2 then era * 400 + year + 1 else era * 400 + year
          month := ((month + 2) % 12 + 1).toNat
          day := (dayOfYear - (153 * month + 2) / 5 + 1).toNat } := by
  have hpos : (0 : Int) < eraDays := by decide
  have h0 := Int.emod_nonneg (n + epochDay) hpos.ne'
  have hlt := Int.emod_lt_of_pos (n + epochDay) hpos
  have hsum := Int.mul_ediv_add_emod (n + epochDay) eraDays
  obtain ⟨hyear0, hyear, hbegin, hend⟩ := yearStart_le_and_lt h0 hlt rfl
  refine ⟨(n + epochDay) / eraDays, withoutLeapDays ((n + epochDay) % eraDays) / 365,
    (n + epochDay) % eraDays - yearStart (withoutLeapDays ((n + epochDay) % eraDays) / 365), _,
    ⟨hyear0, hyear, by omega, by omega, rfl, ?_⟩, ?_⟩
  · rw [Int.mul_comm eraDays] at hsum
    omega
  · have hstart : ∀ {year : Int}, 0 ≤ year → year < 400 → 365 * year + year / 4 - year / 100 = yearStart year := by
      intro year h0 h
      unfold yearStart
      omega
    rw [← hstart hyear0 hyear]
    rfl

/-- The month is one of twelve, and has begun but not ended. -/
theorem IsParted.month_bounds {n era year dayOfYear month : Int} (h : IsParted n era year dayOfYear month) :
    0 ≤ month ∧ month ≤ 11 ∧ (153 * month + 2) / 5 ≤ dayOfYear ∧
      dayOfYear < (153 * (month + 1) + 2) / 5 ∧ dayOfYear ≤ 365 := by
  obtain ⟨_, _, hday0, hday, rfl, _⟩ := h
  have hlast : dayOfYear ≤ 365 := by
    unfold yearStart at hday
    omega
  omega

/-- The date of a day number has this number. -/
theorem dayNumber_ofDayNumber (n : Int) : (ofDayNumber n).dayNumber = n := by
  obtain ⟨era, year, dayOfYear, month, h, hdate⟩ := exists_isParted n
  obtain ⟨hmonth0, hmonth, hbegun, -, -⟩ := h.month_bounds
  have hnumber := h.number
  have hyear0 := h.year_nonneg
  have hyear := h.year_lt
  have hday : ((dayOfYear - (153 * month + 2) / 5 + 1).toNat : Int) = dayOfYear - (153 * month + 2) / 5 + 1 :=
    Int.toNat_of_nonneg (by omega)
  have hmonthNat : (((month + 2) % 12 + 1).toNat : Int) = (month + 2) % 12 + 1 := Int.toNat_of_nonneg (by omega)
  have hback : ((month + 2) % 12 + 1 + 9) % 12 = month := by omega
  have hstart : 365 * year + year / 4 - year / 100 = yearStart year := by
    unfold yearStart
    omega
  -- In January and February the year of the calendar is one ahead.
  have hshift : (if ((month + 2) % 12 + 1).toNat ≤ 2
        then (if (month + 2) % 12 + 1 ≤ 2 then era * 400 + year + 1 else era * 400 + year) - 1
        else if (month + 2) % 12 + 1 ≤ 2 then era * 400 + year + 1 else era * 400 + year) =
      era * 400 + year := by
    split <;> split <;> omega
  have hera : (era * 400 + year) / 400 = era := by omega
  have hyearBack : (era * 400 + year) % 400 = year := by omega
  rw [hdate, dayNumber]
  dsimp only
  rw [hshift, hmonthNat, hback, hday, hera, hyearBack, hstart]
  omega

/-- January and February are the last two months from March on. -/
theorem calendarMonth_le_two_iff {month : Int} (h0 : 0 ≤ month) (h : month ≤ 11) :
    (month + 2) % 12 + 1 ≤ 2 ↔ 10 ≤ month := by
  omega

/-- February has a leap day at the end of a year that is longer by it. -/
theorem IsParted.isLeapYear {n era year dayOfYear month : Int} (h : IsParted n era year dayOfYear month)
    (hlast : dayOfYear = 365) : isLeapYear (era * 400 + year + 1) = true := by
  have hday := h.day_lt
  have hyear0 := h.year_nonneg
  have hyear := h.year_lt
  unfold yearStart at hday
  have hfour : (era * 400 + year + 1) % 4 = 0 := by omega
  have hhundred : (era * 400 + year + 1) % 100 ≠ 0 ∨ (era * 400 + year + 1) % 400 = 0 := by omega
  simpa [Date.isLeapYear, hfour] using hhundred

/-- The date of a day number is a day of the calendar. -/
theorem isValid_ofDayNumber (n : Int) : (ofDayNumber n).isValid = true := by
  obtain ⟨era, year, dayOfYear, month, h, hdate⟩ := exists_isParted n
  obtain ⟨hmonth0, hmonth, hbegun, hend, hlast⟩ := h.month_bounds
  have hleap := h.isLeapYear
  simp only [hdate, isValid, monthLength, Bool.and_eq_true, decide_eq_true_eq]
  refine ⟨⟨⟨by omega, by omega⟩, by omega⟩, ?_⟩
  by_cases hfebruary : month = 11
  · subst hfebruary
    rw [if_pos (show ((11 + 2 : Int) % 12 + 1).toNat = 2 by decide),
      if_pos (show (11 + 2 : Int) % 12 + 1 ≤ 2 by decide)]
    by_cases hlong : dayOfYear = 365
    · rw [if_pos (hleap hlong)]
      omega
    · split <;> omega
  · rw [if_neg (by omega)]
    have hless : month ≤ 10 := by omega
    clear hleap hdate h
    split <;> omega

/-- The years 1 to 9999 are those of the days from the first of January 1 to the last of December 9999. -/
theorem year_ofDayNumber {n : Int} (hlow : -719162 ≤ n) (hhigh : n ≤ 2932896) :
    1 ≤ (ofDayNumber n).year ∧ (ofDayNumber n).year ≤ 9999 := by
  obtain ⟨era, year, dayOfYear, month, h, hdate⟩ := exists_isParted n
  obtain ⟨hmonth0, hmonth, hbegun, hend, hlast⟩ := h.month_bounds
  have hnumber := h.number
  have hday0 := h.day_nonneg
  have hyear0 := h.year_nonneg
  have hyear := h.year_lt
  unfold eraDays epochDay at hnumber
  have hstart : 365 * year ≤ yearStart year ∧ yearStart year ≤ 365 * year + 97 := by
    unfold yearStart
    omega
  have hera0 : 0 ≤ era := by omega
  have hera : era ≤ 24 := by omega
  simp only [hdate, calendarMonth_le_two_iff hmonth0 hmonth]
  constructor
  · split
    · omega
    · -- The year 0 ends in the month that is before March.
      by_contra hnone
      obtain rfl : era = 0 := by omega
      obtain rfl : year = 0 := by omega
      have hzero : yearStart 0 = 0 := by decide
      omega
  · split
    · -- The year 9999 has no more days than are left of the era.
      by_contra hmore
      obtain rfl : era = 24 := by omega
      obtain rfl : year = 399 := by omega
      have hlastYear : yearStart 399 = 145731 := by decide
      omega
    · omega

end Date

end Tagwire
