/-
  ShellQuery.Proofs.Grammar.Number

  The reader of numbers takes what derives from the production for them. It takes a run of characters
  first and checks it afterwards, so a derivation comes from the parts of the numeral that the run
  is read as: its digits, its point and its exponent.
-/
import ShellQuery.Proofs.Grammar.Syntax
import ShellQuery.Proofs.Shell.Literals

namespace ShellQuery.Grammar

open Text Argument

variable {cs rest : List Char} {v : Value}

/-! ## Numerals -/

theorem Digits.head_ne {ds : List Char} (h : Digits ds) {c : Char} (hc : isAsciiDigit c = false)
    (tail : List Char) : ds ≠ c :: tail := by
  rintro rfl
  simp [h c (.head _)] at hc

/-- The power of ten that a written exponent stands for. -/
def powerOf : Option (Bool × List Char) → Int
  | none => 0
  | some (negative, ds) => signed negative (digitsValue ds)

/-- The digits of an exponent, with the sign that was read before them. -/
def exponentDigits? (negative : Bool) (ds : List Char) : Option (Option (Bool × List Char)) :=
  if ds ≠ [] && ds.all isAsciiDigit then some (some (negative, ds)) else none

theorem exponentDigits?_eq_some {negative : Bool} {ds : List Char}
    {written : Option (Bool × List Char)} :
    exponentDigits? negative ds = some written ↔
      Digits ds ∧ ds ≠ [] ∧ written = some (negative, ds) := by
  simp only [exponentDigits?, Option.ite_none_right_eq_some, Bool.and_eq_true, decide_eq_true_eq,
    List.all_eq_true, Option.some.injEq, Digits]
  constructor
  · rintro ⟨⟨hne, hdigits⟩, rfl⟩
    exact ⟨hdigits, hne, rfl⟩
  · rintro ⟨hdigits, hne, rfl⟩
    exact ⟨⟨hne, hdigits⟩, rfl⟩

theorem exponentOf?_signed {e : Char} {s ds : List Char} {negative : Bool}
    (he : e = 'e' ∨ e = 'E') (hsign : Sign s negative) (hdigits : Digits ds) :
    Numeral.exponentOf? (e :: (s ++ ds)) = exponentDigits? negative ds := by
  have hmark : (e = 'e' || e = 'E') = true := by simpa using he
  cases hsign with
  | minus => simp only [Numeral.exponentOf?, if_pos hmark]; rfl
  | plus => simp only [Numeral.exponentOf?, if_pos hmark]; rfl
  | absent =>
    simp only [Numeral.exponentOf?, if_pos hmark, List.nil_append]
    split
    · exact absurd rfl (hdigits.head_ne rfl _)
    · exact absurd rfl (hdigits.head_ne rfl _)
    · rfl

/-- An exponent that is read has a mark, a sign or none, and digits. -/
theorem exists_of_exponentOf? {e : Char} {tail : List Char} {written : Option (Bool × List Char)}
    (h : Numeral.exponentOf? (e :: tail) = some written) :
    (e = 'e' ∨ e = 'E') ∧ ∃ s negative ds, tail = s ++ ds ∧ Sign s negative ∧
      exponentDigits? negative ds = some written := by
  by_cases he : e = 'e' ∨ e = 'E'
  · refine ⟨he, ?_⟩
    have hmark : (e = 'e' || e = 'E') = true := by simpa using he
    simp only [Numeral.exponentOf?, if_pos hmark] at h
    split at h
    · exact ⟨['-'], true, _, rfl, .minus, h⟩
    · exact ⟨['+'], false, _, rfl, .plus, h⟩
    · exact ⟨[], false, _, rfl, .absent, h⟩
  · simp only [not_or] at he
    simp [Numeral.exponentOf?, he] at h

theorem Exponent.of_read {x : List Char} {written : Option (Bool × List Char)}
    (h : Numeral.exponentOf? x = some written) :
    Exponent x (powerOf written) ∧ (x = [] ↔ written = none) := by
  cases x with
  | nil =>
    cases h
    exact ⟨.absent, by simp⟩
  | cons e tail =>
    obtain ⟨he, s, negative, ds, rfl, hsign, hread⟩ := exists_of_exponentOf? h
    obtain ⟨hdigits, hne, rfl⟩ := exponentDigits?_eq_some.1 hread
    exact ⟨.power he hsign hdigits hne, by simp⟩

theorem Exponent.read {x : List Char} {e : Int} (h : Exponent x e) :
    ∃ written, Numeral.exponentOf? x = some written ∧ powerOf written = e ∧
      (x = [] ↔ written = none) := by
  cases h with
  | absent => exact ⟨none, rfl, rfl, by simp⟩
  | power he hsign hdigits hne =>
    rename_i negative
    refine ⟨some (negative, _), ?_, rfl, by simp⟩
    rw [exponentOf?_signed he hsign hdigits]
    exact exponentDigits?_eq_some.2 ⟨hdigits, hne, rfl⟩

theorem Exponent.eq_zero {e : Int} (h : Exponent [] e) : e = 0 := by
  cases h
  rfl

/-- An exponent begins with its mark. -/
theorem Exponent.head {x : List Char} {e : Int} (h : Exponent x e) :
    ∀ c ∈ x.head?, c = 'e' ∨ c = 'E' := by
  cases h with
  | absent => simp
  | power he => simpa using he

/-- Splits off the point a text begins with and the digits after it, if there is one. -/
def fractionOf : List Char → Bool × List Char × List Char
  | '.' :: rest => (true, Numeral.spanDigits rest)
  | rest => (false, [], rest)

/-- Digits in front of something else are split off. -/
theorem Digits.span {ds : List Char} (h : Digits ds) (hrest : ∀ c ∈ rest.head?, isAsciiDigit c = false) :
    Numeral.spanDigits (ds ++ rest) = (ds, rest) := by
  obtain ⟨htake, hdrop⟩ := takeWhile_append ds hrest
  have hspan := spanDigits_digits h
  simp only [Numeral.spanDigits, Prod.mk.injEq] at hspan ⊢
  simp [htake, hdrop, hspan]

theorem digits_takeWhile (cs : List Char) : Digits (cs.takeWhile isAsciiDigit) :=
  fun _ => List.mem_takeWhile_imp

theorem Fraction.of_read {fraction x : List Char} {pointed : Bool}
    (h : fractionOf cs = (pointed, fraction, x)) :
    ∃ f, cs = f ++ x ∧ Fraction f fraction ∧ pointed = decide (f ≠ []) := by
  unfold fractionOf at h
  split at h
  · rename_i rest
    cases h
    exact ⟨'.' :: rest.takeWhile isAsciiDigit, by simp, .point (digits_takeWhile rest), by simp⟩
  · cases h
    exact ⟨[], rfl, .absent, by simp⟩

theorem Fraction.eq_nil {fraction : List Char} (h : Fraction [] fraction) : fraction = [] := by
  cases h
  rfl

theorem Fraction.read {f fraction x : List Char} (h : Fraction f fraction)
    (hx : ∀ c ∈ x.head?, c = 'e' ∨ c = 'E') :
    fractionOf (f ++ x) = (decide (f ≠ []), fraction, x) := by
  have hdigit : ∀ c ∈ x.head?, isAsciiDigit c = false := by
    intro c hc
    rcases hx c hc with rfl | rfl <;> rfl
  cases h with
  | absent =>
    unfold fractionOf
    split
    · rename_i hpoint
      exact absurd (hx '.' (by rw [← List.nil_append x, hpoint]; rfl)) (by decide)
    · rfl
  | point hdigits =>
    rw [List.cons_append, fractionOf, hdigits.span hdigit]
    rfl

/-- The numeral of a text without a sign, with the sign that was read before it. -/
def unsignedOf? (negative : Bool) (cs : List Char) : Option Numeral := do
  let (whole, cs) := Numeral.spanDigits cs
  let (pointed, fraction, cs) := fractionOf cs
  if whole = [] && fraction = [] then none
  else
    let exponent ← Numeral.exponentOf? cs
    some ⟨negative, whole, pointed, fraction, exponent⟩

theorem ofChars?_minus (cs : List Char) : Numeral.ofChars? ('-' :: cs) = unsignedOf? true cs := rfl

theorem ofChars?_of_ne (h : cs.head? ≠ some '-') : Numeral.ofChars? cs = unsignedOf? false cs := by
  simp only [Numeral.ofChars?]
  split
  · exact absurd rfl h
  · rfl

/-- A numeral is written as digits, a point with digits or none, and an exponent or none. -/
structure Unsigned (n : Numeral) (f x : List Char) : Prop where
  whole : Digits n.whole
  fraction : Fraction f n.fraction
  exponent : Exponent x (powerOf n.exponent)
  digit : n.whole ++ n.fraction ≠ []
  isInteger : n.isInteger = true ↔ f = [] ∧ x = []

theorem Unsigned.of_read {negative : Bool} {n : Numeral} (h : unsignedOf? negative cs = some n) :
    ∃ f x, cs = n.whole ++ (f ++ x) ∧ n.negative = negative ∧ Unsigned n f x := by
  obtain ⟨pointed, fraction, x, hfraction⟩ : ∃ pointed fraction x,
      fractionOf (cs.dropWhile isAsciiDigit) = (pointed, fraction, x) := ⟨_, _, _, rfl⟩
  simp only [unsignedOf?, Numeral.spanDigits, hfraction] at h
  split at h
  · cases h
  rename_i hdigit
  obtain ⟨exponent, hexponent, hn⟩ := Option.bind_eq_some_iff.1 h
  cases hn
  obtain ⟨f, hcs, hf, rfl⟩ := Fraction.of_read hfraction
  obtain ⟨hx, hnone⟩ := Exponent.of_read hexponent
  refine ⟨f, x, ?_, rfl, digits_takeWhile cs, hf, hx, by simpa using hdigit, ?_⟩
  · rw [← hcs, List.takeWhile_append_dropWhile]
  · simp [Numeral.isInteger, hnone, Option.isNone_iff_eq_none]

theorem Unsigned.exists_numeral {whole f fraction x : List Char} {e : Int} (negative : Bool)
    (hwhole : Digits whole) (hfraction : Fraction f fraction) (hexponent : Exponent x e)
    (hdigit : whole ++ fraction ≠ []) :
    ∃ n, unsignedOf? negative (whole ++ (f ++ x)) = some n ∧ n.negative = negative ∧
      n.whole = whole ∧ n.fraction = fraction ∧ powerOf n.exponent = e ∧ Unsigned n f x := by
  obtain ⟨exponent, hread, rfl, hnone⟩ := hexponent.read
  have hhead : ∀ c ∈ (f ++ x).head?, isAsciiDigit c = false := by
    cases hfraction with
    | absent =>
      intro c hc
      rcases hexponent.head c hc with rfl | rfl <;> rfl
    | point => simp [isAsciiDigit]
  refine ⟨⟨negative, whole, decide (f ≠ []), fraction, exponent⟩, ?_, rfl, rfl, rfl, rfl, hwhole,
    hfraction, hexponent, hdigit, ?_⟩
  · have hne : (whole = [] && fraction = []) = false := by simpa using hdigit
    simp only [unsignedOf?, hwhole.span hhead, hfraction.read hexponent.head, hne, hread]
    rfl
  · simp [Numeral.isInteger, hnone, Option.isNone_iff_eq_none]

/-! ## The values of numerals -/

theorem lastPlace_eq (n : Numeral) : n.lastPlace = powerOf n.exponent - n.fraction.length := by
  rcases n with ⟨negative, whole, pointed, fraction, _ | ⟨_ | _, ds⟩⟩ <;> rfl

theorem Unsigned.value_integer {n : Numeral} (h : Unsigned n [] []) :
    numeralValue n = integerValue n.negative (digitsValue n.whole) := by
  have hinteger : n.isInteger = true := h.isInteger.2 ⟨rfl, rfl⟩
  have hn : n.toInt = signed n.negative (digitsValue n.whole) := rfl
  simp only [numeralValue, integerValue, hinteger, true_and, ← hn]
  by_cases hlong : -2 ^ 63 ≤ n.toInt ∧ n.toInt < 2 ^ 63
  · rw [if_pos hlong, if_pos hlong, Value.ofInt64, Int64.toInt_ofInt_of_le hlong.1 hlong.2]
  · rw [if_neg hlong, if_neg hlong, if_neg (by omega), Numeral.toBinary64, lastPlace_eq,
      h.exponent.eq_zero, h.fraction.eq_nil]
    simp

theorem Unsigned.value_double {n : Numeral} {f x : List Char} (h : Unsigned n f x)
    (hwritten : f ≠ [] ∨ x ≠ []) :
    numeralValue n = .double (.ofDecimal n.negative (digitsValue (n.whole ++ n.fraction))
      (powerOf n.exponent - n.fraction.length)) := by
  have hinteger : ¬n.isInteger = true := by
    rw [h.isInteger]
    rintro ⟨rfl, rfl⟩
    simp at hwritten
  rw [numeralValue, if_neg (fun hand => hinteger hand.1), Numeral.toBinary64, lastPlace_eq]

/-- The text of a numeral with a sign before it derives, and it denotes the value of the
    numeral. -/
theorem Unsigned.literal {n : Numeral} {s f x : List Char} (h : Unsigned n f x)
    (hsign : Sign s n.negative) :
    NumberLiteral (s ++ (n.whole ++ (f ++ x))) (numeralValue n) := by
  by_cases hwritten : f ≠ [] ∨ x ≠ []
  · rw [h.value_double hwritten]
    exact .double hsign h.whole h.fraction h.exponent h.digit hwritten
  · simp only [not_or, not_not] at hwritten
    obtain ⟨rfl, rfl⟩ := hwritten
    have hdigit := h.digit
    rw [h.fraction.eq_nil, List.append_nil] at hdigit
    rw [h.value_integer, List.append_nil, List.append_nil]
    exact .integer hsign h.whole hdigit

/-! ## Numbers -/

/-- A sign in front of something else is split off. -/
theorem Sign.read {s : List Char} {negative : Bool} (h : Sign s negative)
    (hrest : ∀ c ∈ rest.head?, c ≠ '-' ∧ c ≠ '+') : sign (s ++ rest) = (s, rest) := by
  cases h with
  | minus => rfl
  | plus => rfl
  | absent =>
    cases rest with
    | nil => rfl
    | cons c rest =>
      obtain ⟨hminus, hplus⟩ := hrest c rfl
      simp [sign, hminus, hplus]

theorem Sign.of_read (cs : List Char) :
    Sign (sign cs).1 (decide ((sign cs).1 = ['-'])) := by
  rcases sign_cases cs with h | h | h
  · rw [h]; exact .absent
  · rw [h]; exact .minus
  · rw [h]; exact .plus

/-- The run of a number begins with no sign. -/
theorem head?_numberRun (cs : List Char) :
    ∀ c ∈ (numberRun cs).1.head?, c ≠ '-' ∧ c ≠ '+' := by
  intro c hc
  cases cs with
  | nil => cases hc
  | cons d cs =>
    rw [numberRun.eq_def] at hc
    simp only at hc
    split_ifs at hc with hdigit hexponent
    · obtain rfl : d = c := by simpa using hc
      constructor <;> rintro rfl <;> exact absurd hdigit (by decide)
    · have hd : d = c := by
        cases cs with
        | nil => simpa using hc
        | cons e cs =>
          simp only at hc
          split at hc <;> simpa using hc
      subst hd
      constructor <;> rintro rfl <;> exact absurd hexponent (by decide)
    · cases hc

/-- A numeral with a sign before it is read without its plus sign. -/
theorem ofChars?_signed {s : List Char} {negative : Bool} (h : Sign s negative)
    (hcs : ∀ c ∈ cs.head?, c ≠ '-' ∧ c ≠ '+') :
    Numeral.ofChars? (unsignPlus (s ++ cs)) = unsignedOf? negative cs := by
  have hminus : cs.head? ≠ some '-' := fun hc => (hcs '-' hc).1 rfl
  cases h with
  | minus => exact ofChars?_minus cs
  | plus => exact ofChars?_of_ne hminus
  | absent =>
    have hplus : unsignPlus cs = cs := by
      unfold unsignPlus
      split
      · exact absurd rfl (hcs '+' rfl).2
      · rfl
    rw [List.nil_append, hplus]
    exact ofChars?_of_ne hminus

theorem NumberLiteral.of_read (hword : cs.head? ≠ some 'I') (h : number cs = .ok (v, rest)) :
    ∃ taken, cs = taken ++ rest ∧ NumberLiteral taken v := by
  have hcs := sign_append cs
  have hsign := Sign.of_read cs
  simp only [number] at h
  split at h
  · rename_i hhead
    -- without a sign the text would begin with the word
    have hne : (sign cs).1 ≠ [] := by
      intro hnil
      rw [hnil, List.nil_append] at hcs
      exact hword (hcs ▸ hhead)
    split at h
    · rename_i hinfinity
      cases h
      refine ⟨(sign cs).1 ++ "Infinity".toList, ?_, .infinity hsign hne⟩
      rw [← hinfinity, List.append_assoc, identifier_append, hcs]
    · cases h
  · -- digits
    rw [ofChars?_signed hsign (head?_numberRun _)] at h
    split at h
    · rename_i n hn
      cases h
      obtain ⟨f, x, htaken, hnegative, hunsigned⟩ := Unsigned.of_read hn
      refine ⟨(sign cs).1 ++ (numberRun (sign cs).2).1, ?_, ?_⟩
      · rw [List.append_assoc, numberRun_append, hcs]
      · rw [htaken]
        exact hunsigned.literal (hnegative ▸ hsign)
    · cases h

theorem numberRun_digit {c : Char} (hc : isAsciiDigit c = true ∨ c = '.') (cs : List Char) :
    numberRun (c :: cs) = (c :: (numberRun cs).1, (numberRun cs).2) := by
  have hdigit : (isAsciiDigit c || c = '.') = true := by simpa using hc
  rw [numberRun.eq_def]
  simp only [hdigit, if_true]

/-- Digits and what is a run after them are a run. -/
theorem Digits.run {ds : List Char} (h : Digits ds) (hcs : numberRun cs = (cs, [])) :
    numberRun (ds ++ cs) = (ds ++ cs, []) := by
  induction ds with
  | nil => exact hcs
  | cons d ds ih =>
    rw [List.cons_append, numberRun_digit (.inl (h d (.head _))), ih fun c hc => h c (.tail _ hc)]

theorem Fraction.run {f fraction : List Char} (h : Fraction f fraction)
    (hcs : numberRun cs = (cs, [])) : numberRun (f ++ cs) = (f ++ cs, []) := by
  cases h with
  | absent => exact hcs
  | point hdigits =>
    rw [List.cons_append, numberRun_digit (.inr rfl), hdigits.run hcs]

theorem Exponent.run {x : List Char} {e : Int} (h : Exponent x e) : numberRun x = (x, []) := by
  cases h with
  | absent => rfl
  | power he hsign hdigits hne =>
    rename_i c s ds negative
    have hds : numberRun ds = (ds, []) := numberRun_digits hdigits
    obtain ⟨d, ds, rfl⟩ := List.exists_cons_of_ne_nil hne
    have hsigned : ∀ m, isAsciiDigit m = false → d ≠ m := by
      rintro m hm rfl
      exact hdigits.head_ne hm ds rfl
    rw [numberRun.eq_def]
    rcases he with rfl | rfl <;> cases hsign <;>
      simp [isAsciiDigit, hsigned '-' rfl, hsigned '+' rfl, hds]

/-- What a number is written with after its sign. -/
theorem head?_unsigned {whole f fraction x : List Char} (hwhole : Digits whole)
    (hfraction : Fraction f fraction) (hdigit : whole ++ fraction ≠ []) :
    ∃ c tail, whole ++ (f ++ x) = c :: tail ∧ (isAsciiDigit c = true ∨ c = '.') := by
  cases whole with
  | cons c whole => exact ⟨c, _, rfl, .inl (hwhole c (.head _))⟩
  | nil =>
    cases hfraction with
    | absent => exact absurd rfl hdigit
    | point => exact ⟨'.', _, rfl, .inr rfl⟩

/-- A number without an infinity is read as the numeral of its parts. -/
theorem Sign.read_numeral {s whole f fraction x : List Char} {negative : Bool} {e : Int}
    (hsign : Sign s negative) (hwhole : Digits whole) (hfraction : Fraction f fraction)
    (hexponent : Exponent x e) (hdigit : whole ++ fraction ≠ []) :
    ∃ n, number (s ++ (whole ++ (f ++ x))) = .ok (numeralValue n, []) ∧ n.negative = negative ∧
      n.whole = whole ∧ n.fraction = fraction ∧ powerOf n.exponent = e ∧ Unsigned n f x := by
  obtain ⟨n, hread, hn⟩ := Unsigned.exists_numeral negative hwhole hfraction hexponent hdigit
  refine ⟨n, ?_, hn⟩
  obtain ⟨c, tail, htext, hc⟩ := head?_unsigned (x := x) hwhole hfraction hdigit
  have hne : ∀ d, isAsciiDigit d = false → d ≠ '.' → c ≠ d := by
    rintro d hd hpoint rfl
    rcases hc with hc | hc
    · simp [hd] at hc
    · exact hpoint hc
  have hhead : ∀ d ∈ (whole ++ (f ++ x)).head?, d ≠ '-' ∧ d ≠ '+' := by
    rw [htext]
    rintro d hd
    obtain rfl : c = d := by simpa using hd
    exact ⟨hne '-' rfl (by decide), hne '+' rfl (by decide)⟩
  have hword : (whole ++ (f ++ x)).head? ≠ some 'I' := by
    rw [htext]
    simpa using hne 'I' rfl (by decide)
  have hrun := hwhole.run (hfraction.run hexponent.run)
  simp only [number, hsign.read hhead, if_neg hword, hrun, ofChars?_signed hsign hhead, hread]

theorem NumberLiteral.read (h : NumberLiteral cs v) : number cs = .ok (v, []) := by
  cases h with
  | integer hsign hdigits hne =>
    obtain ⟨n, hread, rfl, rfl, -, -, hn⟩ :=
      hsign.read_numeral hdigits .absent .absent (by rwa [List.append_nil])
    rwa [List.append_nil, List.append_nil, hn.value_integer] at hread
  | double hsign hwhole hfraction hexponent hdigit hwritten =>
    obtain ⟨n, hread, rfl, rfl, rfl, rfl, hn⟩ :=
      hsign.read_numeral hwhole hfraction hexponent hdigit
    rwa [hn.value_double hwritten] at hread
  | infinity hsign hne =>
    have hword : identifier "Infinity".toList = ("Infinity".toList, []) := by decide +kernel
    have hhead : "Infinity".toList.head? = some 'I' := by decide
    have hread : sign (_ ++ "Infinity".toList) = (_, "Infinity".toList) :=
      hsign.read (by simp)
    cases hsign with
    | absent => exact absurd rfl hne
    | plus | minus => simp only [number, hread, hhead, if_pos, hword]; rfl

/-- A number begins with a sign, a digit or a point. -/
theorem NumberLiteral.head (h : NumberLiteral cs v) :
    ∃ c tail, cs = c :: tail ∧ startsNumber c = true := by
  have hsigned : ∀ {s rest : List Char} {negative : Bool}, Sign s negative →
      (s = [] → ∃ c tail, rest = c :: tail ∧ (isAsciiDigit c = true ∨ c = '.')) →
      ∃ c tail, s ++ rest = c :: tail ∧ startsNumber c = true := by
    intro s rest negative hsign hrest
    cases hsign with
    | plus => exact ⟨'+', rest, rfl, rfl⟩
    | minus => exact ⟨'-', rest, rfl, rfl⟩
    | absent =>
      obtain ⟨c, tail, rfl, hc⟩ := hrest rfl
      exact ⟨c, tail, rfl, by rcases hc with hc | rfl <;> simp [startsNumber, *]⟩
  cases h with
  | integer hsign hdigits hne =>
    refine hsigned hsign fun _ => ?_
    obtain ⟨c, ds, rfl⟩ := List.exists_cons_of_ne_nil hne
    exact ⟨c, ds, rfl, .inl (hdigits c (.head _))⟩
  | double hsign hwhole hfraction hexponent hdigit hwritten =>
    exact hsigned hsign fun _ => head?_unsigned hwhole hfraction hdigit
  | infinity hsign hne => exact hsigned hsign fun hnil => absurd hnil hne

end ShellQuery.Grammar
