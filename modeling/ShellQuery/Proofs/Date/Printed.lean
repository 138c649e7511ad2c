/-
  ShellQuery.Proofs.Date.Printed

  The RFC 3339 text of a moment, read back. Its fields have a fixed width, and its fraction ends
  before the zone, so each field is read as it was written. With the zone at its end the text is
  read as the moment's milliseconds (`internet?_printed`); without it, it is no RFC 3339 text, but
  a text without a zone for the same moment (`local?_printed`).
-/
import Mathlib.Data.List.TakeWhile
import ShellQuery.Date.Reading
import ShellQuery.Proofs.Digits
import ShellQuery.Proofs.Text

namespace ShellQuery.Date

open Text

variable {width n : Nat} {rest : List Char}

/-- What a reader goes on with after a part that it has read. -/
theorem bind_of_eq_some {α β : Type} {x : Option α} {a : α} {f : α → Option β} (h : x = some a) :
    (x >>= f) = f a := by
  rw [h]
  rfl

/-! ## Fields of a fixed width -/

/-- A padded number begins with a digit. -/
theorem exists_padded_eq_cons (width n : Nat) :
    ∃ c cs, padded width n = c :: cs ∧ isAsciiDigit c = true := by
  cases hpadded : padded width n with
  | nil =>
    have hne : Nat.toDigits 10 n ≠ [] := Nat.toDigits_ne_nil
    simp [padded, hne] at hpadded
  | cons c cs =>
    have hmem : c ∈ padded width n := by
      rw [hpadded]
      exact List.mem_cons_self
    exact ⟨c, cs, rfl, isAsciiDigit_of_mem_padded hmem⟩

theorem takeWhile_padded (hwidth : 0 < width) (hn : n < 10 ^ width) :
    ((padded width n ++ rest).take width).takeWhile isAsciiDigit = padded width n := by
  have hlength := length_padded hwidth hn
  rw [List.take_append_of_le_length (by omega), List.take_of_length_le (by omega)]
  exact List.takeWhile_eq_self_iff.2 fun _ => isAsciiDigit_of_mem_padded

theorem digitsExactly_padded (hwidth : 0 < width) (hn : n < 10 ^ width) :
    digitsExactly width (padded width n ++ rest) = some (n, rest) := by
  have hlength := length_padded hwidth hn
  simp only [digitsExactly, takeWhile_padded hwidth hn, hlength, if_pos, digitsValue_padded]
  rw [List.drop_append_of_le_length (by omega), List.drop_of_length_le (by omega), List.nil_append]

theorem digitsUpTo_padded (hwidth : 0 < width) (hn : n < 10 ^ width) :
    digitsUpTo width (padded width n ++ rest) = some (n, rest) := by
  have hne : padded width n ≠ [] := by
    have hlength := length_padded hwidth hn
    intro hnil
    rw [hnil] at hlength
    exact absurd hlength (Nat.ne_of_lt hwidth)
  simp only [digitsUpTo, takeWhile_padded hwidth hn, if_neg hne, digitsValue_padded]
  rw [List.drop_append_of_le_length (Nat.le_refl _), List.drop_length, List.nil_append]

@[simp] theorem trimStart_padded : trimStart (padded width n ++ rest) = padded width n ++ rest := by
  obtain ⟨c, cs, hpadded, hc⟩ := exists_padded_eq_cons width n
  rw [hpadded, List.cons_append, trimStart]
  exact List.dropWhile_cons_of_neg (by simp [isBlank_of_isAsciiDigit hc])

theorem paddedField_padded (hn : n < 100) : paddedField (padded 2 n ++ rest) = some (n, rest) := by
  rw [paddedField, trimStart_padded]
  exact digitsUpTo_padded (by omega) hn

/-- A year of four digits has no sign. -/
theorem yearField_padded (hn : n < 10000) :
    yearField (padded 4 n ++ rest) = some ((n : Int), rest) := by
  obtain ⟨c, cs, hpadded, hc⟩ := exists_padded_eq_cons 4 n
  have hread : digitsUpTo 4 (padded 4 n ++ rest) = some (n, rest) :=
    digitsUpTo_padded (by omega) hn
  rw [yearField, trimStart_padded, hpadded, List.cons_append]
  rw [hpadded, List.cons_append] at hread
  split
  · rename_i heq
    obtain rfl := List.head_eq_of_cons_eq heq
    exact absurd hc (by decide)
  · rename_i heq
    obtain rfl := List.head_eq_of_cons_eq heq
    exact absurd hc (by decide)
  · rw [hread]
    rfl

@[simp] theorem character_cons (c : Char) : character c (c :: rest) = some rest := by
  rw [character, if_pos rfl]

/-! ## Fractions -/

/-- The fraction of a second as it is written: nothing, or a point and the digits that count. -/
def fraction (millisecond : Nat) : List Char :=
  match fractionDigits millisecond with
  | [] => []
  | ds => '.' :: ds

/-- The digits of a fraction and zeros after them are the three digits of the milliseconds. -/
theorem exists_fractionDigits_append (millisecond : Nat) :
    ∃ zeros, fractionDigits millisecond ++ List.replicate zeros '0' = padded 3 millisecond := by
  let zeros := (padded 3 millisecond).reverse.takeWhile (· = '0')
  have hzeros : zeros.reverse = List.replicate zeros.length '0' := by
    refine List.eq_replicate_iff.2 ⟨List.length_reverse, fun c hc => ?_⟩
    simpa using List.mem_takeWhile_imp (List.mem_reverse.1 hc)
  refine ⟨zeros.length, ?_⟩
  rw [← hzeros, fractionDigits, ← List.reverse_append, List.takeWhile_append_dropWhile,
    List.reverse_reverse]

theorem isAsciiDigit_of_mem_fractionDigits {c : Char} {millisecond : Nat}
    (h : c ∈ fractionDigits millisecond) : isAsciiDigit c = true := by
  obtain ⟨zeros, hzeros⟩ := exists_fractionDigits_append millisecond
  have hmem : c ∈ padded 3 millisecond := by
    rw [← hzeros]
    exact List.mem_append_left _ h
  exact isAsciiDigit_of_mem_padded hmem

theorem millisOfFraction_fractionDigits {millisecond : Nat} (h : millisecond < 1000) :
    millisOfFraction (fractionDigits millisecond) = millisecond := by
  obtain ⟨zeros, hzeros⟩ := exists_fractionDigits_append millisecond
  have hlength : (fractionDigits millisecond ++ List.replicate zeros '0').length = 3 := by
    rw [hzeros]
    exact length_padded (by omega) h
  rw [List.length_append, List.length_replicate] at hlength
  -- the zeros that are cut off are among the three that are put back
  have hfilled : (fractionDigits millisecond ++ ['0', '0', '0']).take 3 = padded 3 millisecond := by
    have hthree : ['0', '0', '0'] = List.replicate zeros '0' ++ List.replicate (3 - zeros) '0' := by
      rw [List.replicate_append_replicate, Nat.add_sub_cancel' (by omega)]
      rfl
    rw [hthree, ← List.append_assoc, hzeros]
    have hpadded : (padded 3 millisecond).length = 3 := length_padded (by omega) h
    rw [List.take_append_of_le_length (by omega), List.take_of_length_le (by omega)]
  rw [millisOfFraction, hfilled, digitsValue_padded]

/-- A fraction is read up to its end, which is no digit and, where there is none, no point. -/
theorem fractionPart_fraction {millisecond : Nat} (h : millisecond < 1000)
    (hrest : ∀ c ∈ rest.head?, isAsciiDigit c = false ∧ c ≠ '.') :
    fractionPart (fraction millisecond ++ rest) = some (millisecond, rest) := by
  have hmillis := millisOfFraction_fractionDigits h
  rw [fraction]
  cases hdigits : fractionDigits millisecond with
  | nil =>
    -- no digits are printed for no milliseconds, and then no point either
    obtain rfl : 0 = millisecond := by
      rw [hdigits] at hmillis
      exact hmillis
    cases rest with
    | nil => rfl
    | cons c cs =>
      have hpoint : c ≠ '.' := (hrest c rfl).2
      simp only [List.nil_append, fractionPart]
      split
      · rename_i heq
        exact absurd (List.head_eq_of_cons_eq heq) hpoint
      · rfl
  | cons d ds =>
    have hall : ∀ c ∈ d :: ds, isAsciiDigit c = true := by
      intro c hc
      rw [← hdigits] at hc
      exact isAsciiDigit_of_mem_fractionDigits hc
    have hstop : rest.takeWhile isAsciiDigit = [] ∧ rest.dropWhile isAsciiDigit = rest := by
      cases rest with
      | nil => exact ⟨rfl, rfl⟩
      | cons c cs => simp [(hrest c rfl).1]
    -- the digits are read up to the rest, which does not begin with one
    have hspan : Numeral.spanDigits (d :: ds ++ rest) = (d :: ds, rest) := by
      rw [Numeral.spanDigits, List.takeWhile_append_of_pos hall, List.dropWhile_append_of_pos hall,
        hstop.1, hstop.2, List.append_nil]
    rw [List.cons_append, fractionPart, hspan]
    simp only [reduceCtorEq, if_false]
    rw [← hdigits, hmillis]

/-! ## Printed moments -/

namespace Moment

/-- A moment of a year with four digits that the calendar and the clock have. -/
structure Printable (m : Moment) : Prop where
  date : m.date.isValid = true
  year_nonneg : 0 ≤ m.date.year
  year_le : m.date.year ≤ 9999
  hour : m.hour < 24
  minute : m.minute < 60
  second : m.second < 60
  millisecond : m.millisecond < 1000

/-- The RFC 3339 text of a moment up to the zone. -/
def zoneless (m : Moment) : List Char :=
  padded 4 m.date.year.toNat ++ '-' :: (padded 2 m.date.month ++ '-' :: (padded 2 m.date.day ++
    'T' :: (padded 2 m.hour ++ ':' :: (padded 2 m.minute ++ ':' :: (padded 2 m.second ++
      fraction m.millisecond)))))

theorem internet_eq (m : Moment) : m.internet = .ofList (m.zoneless ++ ['Z']) := by
  cases hdigits : fractionDigits m.millisecond with
  | nil => simp [internet, zoneless, fraction, hdigits]
  | cons d ds => simp [internet, zoneless, fraction, hdigits]

variable {m : Moment}

theorem Printable.month_lt (h : m.Printable) : m.date.month < 100 := by
  have hvalid := h.date
  simp only [CalendarDay.isValid, Bool.and_eq_true, decide_eq_true_eq] at hvalid
  omega

theorem Printable.day_lt (h : m.Printable) : m.date.day < 100 := by
  have hvalid := h.date
  have hlength : CalendarDay.daysInMonth m.date.year m.date.month ≤ 31 := by
    simp only [CalendarDay.daysInMonth]
    split <;> split <;> omega
  simp only [CalendarDay.isValid, Bool.and_eq_true, decide_eq_true_eq] at hvalid
  omega

theorem Printable.year_lt (h : m.Printable) : m.date.year.toNat < 10000 := by
  have hle := h.year_le
  omega

theorem Printable.hour_lt (h : m.Printable) : m.hour < 100 :=
  Nat.lt_trans h.hour (by omega)

theorem Printable.minute_lt (h : m.Printable) : m.minute < 100 :=
  Nat.lt_trans h.minute (by omega)

theorem Printable.second_lt (h : m.Printable) : m.second < 100 :=
  Nat.lt_trans h.second (by omega)

theorem Printable.toNat_year (h : m.Printable) : (m.date.year.toNat : Int) = m.date.year :=
  Int.toNat_of_nonneg h.year_nonneg

theorem Printable.moment?_eq (h : m.Printable) :
    moment? m.date.year m.date.month m.date.day m.hour m.minute m.second m.millisecond =
      some m := by
  have hsecond : m.second ≤ 60 := Nat.le_of_lt h.second
  simp [moment?, h.date, h.hour, h.minute, hsecond]

/-- What is left of a text after its fraction is read as a zone. -/
theorem Printable.internet?_zoneless (h : m.Printable)
    (hrest : ∀ c ∈ rest.head?, isAsciiDigit c = false ∧ c ≠ '.') :
    internet? (m.zoneless ++ rest) = (zone rest).bind fun (offset, cs) =>
      if cs = [] then some (m.toMillis - offset * 60000) else none := by
  have hfield : ∀ {n : Nat}, n < 100 → ∀ cs, digitsExactly 2 (padded 2 n ++ cs) = some (n, cs) :=
    fun hn cs => digitsExactly_padded (by omega) hn
  simp only [zoneless, List.append_assoc, List.cons_append]
  unfold internet?
  -- one field after the other
  refine (bind_of_eq_some (digitsExactly_padded (by omega) h.year_lt)).trans ?_
  refine (bind_of_eq_some (character_cons '-')).trans ?_
  refine (bind_of_eq_some (hfield h.month_lt _)).trans ?_
  refine (bind_of_eq_some (character_cons '-')).trans ?_
  refine (bind_of_eq_some (hfield h.day_lt _)).trans ?_
  refine (bind_of_eq_some rfl).trans ?_
  refine (bind_of_eq_some (hfield h.hour_lt _)).trans ?_
  refine (bind_of_eq_some (character_cons ':')).trans ?_
  refine (bind_of_eq_some (hfield h.minute_lt _)).trans ?_
  refine (bind_of_eq_some (character_cons ':')).trans ?_
  refine (bind_of_eq_some (hfield h.second_lt _)).trans ?_
  refine (bind_of_eq_some (fractionPart_fraction h.millisecond hrest)).trans ?_
  simp only [h.toNat_year, h.moment?_eq, Option.bind_eq_bind, Option.bind_some]

/-- With its zone the text stands for the moment's milliseconds. -/
theorem Printable.internet?_printed (h : m.Printable) :
    internet? (m.zoneless ++ ['Z']) = some m.toMillis := by
  rw [h.internet?_zoneless (by simp; decide)]
  simp [zone]

/-- Without a zone it is no RFC 3339 text. -/
theorem Printable.internet?_zoneless_eq_none (h : m.Printable) : internet? m.zoneless = none := by
  have hnone : internet? (m.zoneless ++ []) = none := h.internet?_zoneless nofun
  rwa [List.append_nil] at hnone

/-- Without a zone it is a date and a time for the same moment. -/
theorem Printable.local?_printed (h : m.Printable) : local? m.zoneless = some m := by
  have hlow := h.year_nonneg
  have hhigh := h.year_le
  have hdate : dateFields m.zoneless = some ((m.date.year, m.date.month, m.date.day),
      'T' :: (padded 2 m.hour ++ ':' :: (padded 2 m.minute ++ ':' :: (padded 2 m.second ++
        fraction m.millisecond)))) := by
    have hrange : -262143 ≤ m.date.year ∧ m.date.year ≤ 262142 := ⟨by omega, by omega⟩
    simp only [dateFields, zoneless, yearField_padded h.year_lt, paddedField_padded h.month_lt,
      paddedField_padded h.day_lt, character_cons, Option.bind_eq_bind, Option.bind_some,
      h.toNat_year, if_pos hrange]
  have htime : timeFields (padded 2 m.hour ++ ':' :: (padded 2 m.minute ++ ':' ::
      (padded 2 m.second ++ fraction m.millisecond))) =
        some (m.hour, m.minute, m.second, m.millisecond) := by
    have hfraction : fractionPart (fraction m.millisecond ++ []) = some (m.millisecond, []) :=
      fractionPart_fraction h.millisecond nofun
    rw [List.append_nil] at hfraction
    simp only [timeFields, paddedField_padded h.hour_lt, paddedField_padded h.minute_lt,
      paddedField_padded h.second_lt, character_cons, Option.bind_eq_bind, Option.bind_some,
      hfraction, if_pos]
  simp only [local?, hdate, character_cons, Option.bind_eq_bind, Option.bind_some, htime,
    h.moment?_eq]
  rfl

/-! ## Characters of a printed text -/

theorem mem_fraction {c : Char} {millisecond : Nat} (h : c ∈ fraction millisecond) :
    isAsciiDigit c = true ∨ c = '.' := by
  rw [fraction] at h
  split at h
  · exact absurd h List.not_mem_nil
  · rcases List.mem_cons.1 h with rfl | h
    · exact .inr rfl
    · exact .inl (isAsciiDigit_of_mem_fractionDigits h)

/-- The text is of digits and the marks between them. -/
theorem mem_zoneless {c : Char} (h : c ∈ m.zoneless) :
    isAsciiDigit c = true ∨ c ∈ ['-', 'T', ':', '.'] := by
  have hpadded : ∀ {width n : Nat}, c ∈ padded width n → isAsciiDigit c = true :=
    isAsciiDigit_of_mem_padded
  simp only [zoneless, List.mem_append, List.mem_cons] at h
  rcases h with h | rfl | h | rfl | h | rfl | h | rfl | h | rfl | h | h
  all_goals first
    | exact .inl (hpadded h)
    | exact .inr (by decide)
    | skip
  exact (mem_fraction h).imp_right (by rintro rfl; decide)

/-- With the zone or without it, a printed text has no blanks, no quotes and no backslashes. -/
theorem plain_of_mem_printed {c : Char} {last : List Char} (hlast : last = ['Z'] ∨ last = [])
    (h : c ∈ m.zoneless ++ last) : isBlank c = false ∧ c ∉ ['"', '\'', '\\'] := by
  have hclass : isAsciiDigit c = true ∨ c ∈ ['-', 'T', ':', '.', 'Z'] := by
    rcases List.mem_append.1 h with h | h
    · exact (mem_zoneless h).imp_right fun hc => List.mem_append_left ['Z'] hc
    · obtain rfl | rfl := hlast
      · exact .inr (List.mem_append_right ['-', 'T', ':', '.'] h)
      · exact absurd h List.not_mem_nil
  rcases hclass with hdigit | hmark
  · refine ⟨isBlank_of_isAsciiDigit hdigit, fun hmem => ?_⟩
    simp only [List.mem_cons, List.not_mem_nil, or_false] at hmem
    rcases hmem with rfl | rfl | rfl <;> exact absurd hdigit (by decide)
  · simp only [List.mem_cons, List.not_mem_nil, or_false] at hmark
    rcases hmark with rfl | rfl | rfl | rfl | rfl <;> decide

end Moment

end ShellQuery.Date
