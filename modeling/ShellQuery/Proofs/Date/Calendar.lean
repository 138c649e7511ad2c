/-
  ShellQuery.Proofs.Date.Calendar

  The calendar, day by day. The days of an era of four hundred years are counted by centuries, by
  groups of four years, by years and by days of a year that begins in March (`DayOfEra`). The day
  with a number is a day of the calendar (`isValid_ofDayNumber`), and its number is that number
  (`dayNumber_ofDayNumber`). The same holds of the moments of a day (`toMillis_ofMillis`).
-/
import Mathlib.Tactic.IntervalCases
import ShellQuery.Date.Calendar

namespace ShellQuery.Date

namespace CalendarDay

/-! ## Years that begin in March -/

/-- A day of the given month, counted from March, by the number of the day in a year that begins
    in March. -/
def ofShifted (year : Int) (shifted dayOfYear : Nat) : CalendarDay :=
  let month := if shifted < 10 then shifted + 3 else shifted - 9
  ⟨if month ≤ 2 then year + 1 else year, month, dayOfYear - (153 * shifted + 2) / 5 + 1⟩

/-- The day after the given number of days of a year that begins in March. -/
def ofMarch (year : Int) (dayOfYear : Nat) : CalendarDay :=
  ofShifted year ((5 * dayOfYear + 2) / 153) dayOfYear

/-- From March to December. -/
theorem ofShifted_eq (year : Int) {shifted : Nat} (dayOfYear : Nat) (h : shifted < 10) :
    ofShifted year shifted dayOfYear =
      ⟨year, shifted + 3, dayOfYear - (153 * shifted + 2) / 5 + 1⟩ := by
  have hmonth : ¬ shifted + 3 ≤ 2 := by omega
  simp only [ofShifted, if_pos h, if_neg hmonth]

/-- January and February belong to the next year. -/
theorem ofShifted_eq_next (year : Int) {shifted : Nat} (dayOfYear : Nat) (h : 10 ≤ shifted)
    (hle : shifted ≤ 11) :
    ofShifted year shifted dayOfYear =
      ⟨year + 1, shifted - 9, dayOfYear - (153 * shifted + 2) / 5 + 1⟩ := by
  have hnot : ¬ shifted < 10 := by omega
  have hmonth : shifted - 9 ≤ 2 := by omega
  simp only [ofShifted, if_neg hnot, if_pos hmonth]

/-- The days of the years of an era before a year. -/
def daysBefore (yearOfEra : Nat) : Int :=
  yearOfEra * 365 + yearOfEra / 4 - yearOfEra / 100

/-- The number of a day is the days of the eras, of the years and of the year before it. -/
theorem dayNumber_ofMarch {era : Int} {yearOfEra dayOfYear : Nat} (hyear : yearOfEra < 400)
    (hday : dayOfYear ≤ 365) :
    (ofMarch (era * 400 + yearOfEra) dayOfYear).dayNumber =
      era * 146097 + (daysBefore yearOfEra + dayOfYear) - 719468 := by
  have hshifted : (5 * dayOfYear + 2) / 153 ≤ 11 := by omega
  have hstart : (153 * ((5 * dayOfYear + 2) / 153) + 2) / 5 ≤ dayOfYear := by omega
  -- all that counts of the month is that it begins no later than the day
  simp only [ofMarch]
  generalize (5 * dayOfYear + 2) / 153 = shifted at hshifted hstart ⊢
  by_cases hten : shifted < 10
  · have hmonth : ¬ shifted + 3 ≤ 2 := by omega
    have hback : (shifted + 3 + 9) % 12 = shifted := by omega
    rw [ofShifted_eq _ _ hten]
    simp only [dayNumber, daysBefore, if_neg hmonth, hback]
    omega
  · have hmonth : shifted - 9 ≤ 2 := by omega
    have hback : (shifted - 9 + 9) % 12 = shifted := by omega
    rw [ofShifted_eq_next _ _ (by omega) hshifted]
    simp only [dayNumber, daysBefore, if_pos hmonth, hback]
    omega

/-- The last day of a year that begins in March is the leap day, where the year has it. -/
theorem isValid_ofMarch {year : Int} {dayOfYear : Nat} (hday : dayOfYear ≤ 365)
    (hleap : dayOfYear = 365 → isLeapYear (year + 1) = true) :
    (ofMarch year dayOfYear).isValid = true := by
  have hshifted : (5 * dayOfYear + 2) / 153 ≤ 11 := by omega
  have hlow : 153 * ((5 * dayOfYear + 2) / 153) ≤ 5 * dayOfYear + 2 := by omega
  have hhigh : 5 * dayOfYear + 2 < 153 * ((5 * dayOfYear + 2) / 153) + 153 := by omega
  simp only [ofMarch]
  generalize (5 * dayOfYear + 2) / 153 = shifted at hshifted hlow hhigh ⊢
  by_cases hten : shifted < 10
  · -- each of these months is as long in every year
    rw [ofShifted_eq _ _ hten]
    interval_cases shifted <;> simp [isValid, daysInMonth] <;> omega
  · rw [ofShifted_eq_next _ _ (by omega) hshifted]
    by_cases hjanuary : shifted = 10
    · subst hjanuary
      simp [isValid, daysInMonth]
      omega
    · obtain rfl : shifted = 11 := by omega
      by_cases hlast : dayOfYear = 365
      · subst hlast
        simp [isValid, daysInMonth, hleap rfl]
      · have hlength : 28 ≤ daysInMonth (year + 1) 2 := by
          simp only [daysInMonth, if_pos]
          split <;> omega
        simp only [isValid, Bool.and_eq_true, decide_eq_true_eq]
        exact ⟨⟨⟨by omega, by omega⟩, by omega⟩, Nat.le_trans (by omega) hlength⟩

/-! ## Eras -/

/-- A day of an era: the centuries, the groups of four years, the years and the days before it. A
    year has a leap day only if it is the last of its group, and, if that is the last group of its
    century, only if that is the last century. -/
structure DayOfEra where
  century : Nat
  group : Nat
  year : Nat
  day : Nat
  century_le : century ≤ 3
  group_le : group ≤ 24
  year_le : year ≤ 3
  day_le : day ≤ 365
  leap : day = 365 → year = 3 ∧ (group = 24 → century = 3)

namespace DayOfEra

variable (e : DayOfEra)

/-- The number of the day in its era. -/
def number : Nat :=
  36524 * e.century + 1461 * e.group + 365 * e.year + e.day

/-- The number of the year in its era. -/
def yearOfEra : Nat :=
  100 * e.century + 4 * e.group + e.year

theorem exists_number_eq {n : Nat} (h : n < 146097) : ∃ e : DayOfEra, e.number = n := by
  let century := min (n / 36524) 3
  let inCentury := n - 36524 * century
  let group := inCentury / 1461
  let inGroup := inCentury - 1461 * group
  let year := min (inGroup / 365) 3
  refine ⟨⟨century, group, year, inGroup - 365 * year, ?_, ?_, ?_, ?_, ?_⟩, ?_⟩ <;>
    simp only [century, inCentury, group, inGroup, year, number] <;> omega

theorem yearOfEra_lt : e.yearOfEra < 400 := by
  have := e.century_le
  have := e.group_le
  have := e.year_le
  simp only [yearOfEra]
  omega

theorem number_lt : e.number < 146097 := by
  obtain ⟨century, group, year, day, hcentury, hgroup, hyear, hday, hleap⟩ := e
  simp only [number]
  omega

/-- The centuries before a day: only the last day of the era is one too far, and is set back. -/
theorem century_of_number : e.number / 36524 - e.number / 146096 = e.century := by
  obtain ⟨century, group, year, day, hcentury, hgroup, hyear, hday, hleap⟩ := e
  simp only [number]
  -- the days after the last full century fill one only at the end of the era
  by_cases hlast : 1461 * group + 365 * year + day = 36524
  · obtain rfl : century = 3 := by omega
    omega
  · have hrest : 1461 * group + 365 * year + day < 36524 := by omega
    omega

/-- The leap days before a day, one of each group of four years. The day that ends the year may
    count as one of them. -/
theorem group_of_number :
    e.number / 1460 = 25 * e.century + e.group ∧ e.day ≤ 364 ∨
      e.number / 1460 = 25 * e.century + e.group + 1 ∧ 0 < e.day := by
  obtain ⟨century, group, year, day, hcentury, hgroup, hyear, hday, hleap⟩ := e
  simp only [number]
  by_cases hend : 24 * century + group + 365 * year + day < 1460
  · exact .inl ⟨by omega, by omega⟩
  · exact .inr ⟨by omega, by omega⟩

/-- The year of a day is found from the number of the day. -/
theorem year_of_number :
    (e.number - e.number / 1460 + e.number / 36524 - e.number / 146096) / 365 = e.yearOfEra := by
  have hcentury := e.century_of_number
  have hday := e.day_le
  have hless : e.number / 146096 ≤ e.number / 36524 :=
    Nat.div_le_div_left (by omega) (by omega)
  have hnumber : e.number = 36524 * e.century + 1461 * e.group + 365 * e.year + e.day := rfl
  simp only [yearOfEra]
  -- the two quotients matter only by their difference
  generalize e.number / 146096 = overrun at hcentury hless ⊢
  generalize e.number / 36524 = centuries at hcentury hless ⊢
  obtain ⟨hgroup, hbefore⟩ | ⟨hgroup, hbefore⟩ := e.group_of_number <;> rw [hgroup] <;> omega

theorem daysBefore_yearOfEra : daysBefore e.yearOfEra + e.day = e.number := by
  obtain ⟨century, group, year, day, hcentury, hgroup, hyear, hday, hleap⟩ := e
  simp only [number, yearOfEra, daysBefore]
  omega

theorem day_of_number :
    e.number - (365 * e.yearOfEra + e.yearOfEra / 4 - e.yearOfEra / 100) = e.day := by
  obtain ⟨century, group, year, day, hcentury, hgroup, hyear, hday, hleap⟩ := e
  simp only [number, yearOfEra]
  omega

/-- A year with a leap day at its end goes over into a leap year. -/
theorem isLeapYear_of_day (era : Int) (h : e.day = 365) :
    isLeapYear (era * 400 + e.yearOfEra + 1) = true := by
  obtain ⟨hyear, hcentury⟩ := e.leap h
  have hle := e.group_le
  simp only [isLeapYear, yearOfEra, hyear, Bool.and_eq_true, Bool.or_eq_true, decide_eq_true_eq,
    ne_eq, decide_not, Bool.not_eq_true', decide_eq_false_iff_not]
  omega

end DayOfEra

/-! ## Days by their numbers -/

/-- The day with a number, by its era. -/
theorem ofDayNumber_eq (era : Int) (e : DayOfEra) :
    ofDayNumber (era * 146097 + e.number - 719468) = ofMarch (era * 400 + e.yearOfEra) e.day := by
  have hlt := e.number_lt
  have hera : (era * 146097 + e.number - 719468 + 719468) / 146097 = era := by omega
  have hnumber : ((era * 146097 + e.number - 719468 + 719468) % 146097).toNat = e.number := by omega
  simp only [ofDayNumber, hera, hnumber, e.year_of_number, e.day_of_number]
  rfl

/-- Every number is that of a day of an era. -/
theorem exists_eq_number (n : Int) :
    ∃ (era : Int) (e : DayOfEra), n = era * 146097 + e.number - 719468 := by
  obtain ⟨e, he⟩ := DayOfEra.exists_number_eq (n := ((n + 719468) % 146097).toNat) (by omega)
  refine ⟨(n + 719468) / 146097, e, ?_⟩
  rw [he]
  omega

/-- The number of the day with a number is that number. -/
theorem dayNumber_ofDayNumber (n : Int) : (ofDayNumber n).dayNumber = n := by
  obtain ⟨era, e, rfl⟩ := exists_eq_number n
  rw [ofDayNumber_eq, dayNumber_ofMarch e.yearOfEra_lt e.day_le, e.daysBefore_yearOfEra]

/-- The day with a number is one that the calendar has. -/
theorem isValid_ofDayNumber (n : Int) : (ofDayNumber n).isValid = true := by
  obtain ⟨era, e, rfl⟩ := exists_eq_number n
  rw [ofDayNumber_eq]
  exact isValid_ofMarch e.day_le (e.isLeapYear_of_day era)

/-- From 1970 to the end of the year 9999. -/
theorem year_ofDayNumber {n : Int} (hlow : 0 ≤ n) (hhigh : n < 2932897) :
    0 ≤ (ofDayNumber n).year ∧ (ofDayNumber n).year ≤ 9999 := by
  obtain ⟨era, e, rfl⟩ := exists_eq_number n
  rw [ofDayNumber_eq]
  have hnumber := e.daysBefore_yearOfEra
  have hyear := e.yearOfEra_lt
  have hday := e.day_le
  simp only [daysBefore] at hnumber
  -- the year in which the day's own year began
  have hbegun : (ofMarch (era * 400 + e.yearOfEra) e.day).year = era * 400 + e.yearOfEra ∨
      (ofMarch (era * 400 + e.yearOfEra) e.day).year = era * 400 + e.yearOfEra + 1 ∧
        306 ≤ e.day := by
    by_cases hten : (5 * e.day + 2) / 153 < 10
    · exact .inl (by rw [ofMarch, ofShifted_eq _ _ hten])
    · exact .inr ⟨by rw [ofMarch, ofShifted_eq_next _ _ (by omega) (by omega)], by omega⟩
  omega

end CalendarDay

/-! ## Moments -/

namespace Moment

theorem toMillis_ofMillis (n : Int) : (ofMillis n).toMillis = n := by
  simp only [ofMillis, toMillis, CalendarDay.dayNumber_ofDayNumber]
  omega

end Moment

end ShellQuery.Date
