/-
  ShellQuery.Proofs.Shell.Literals

  The plain literals that stand for wrapper calls are read as values: strings, dates, numbers and
  objects of two numbers.
-/
import ShellQuery.Proofs.Locality
import ShellQuery.Proofs.Shell.Syntax

namespace ShellQuery

open Text Argument Shell

variable {now : Int64} {depth : Nat} {cs rest : List Char} {v : Value}

/-! ## Strings -/

theorem stringBody_plain {opening content : List Char} {q : Char}
    (h : ∀ c ∈ content, c ≠ q ∧ c ≠ '\\') :
    stringBody opening q (content ++ [q]) = .ok (content, []) := by
  induction content with
  | nil => simp [stringBody]
  | cons c content ih =>
    have hc := h c (.head _)
    have htail := ih fun d hd => h d (.tail _ hd)
    rw [List.cons_append, stringBody.eq_def]
    simp [hc, htail, push]

theorem string_quote {content : List Char} (h : ∀ c ∈ content, Wrapper.isQuote c = false ∧ c ≠ '\\') :
    string (Wrapper.quote content) = .ok (.ofList content, []) := by
  have hplain : ∀ c ∈ content, c ≠ '"' ∧ c ≠ '\\' := by
    refine fun c hc => ⟨?_, (h c hc).2⟩
    rintro rfl
    simpa [Wrapper.isQuote] using (h _ hc).1
  exact bind_eq_ok.2 ⟨_, stringBody_plain hplain, rfl⟩

theorem value_quote {content : List Char} (h : ∀ c ∈ content, Wrapper.isQuote c = false ∧ c ≠ '\\') :
    value now (depth + 1) (Wrapper.quote content) = .ok (.string (.ofList content), []) := by
  have hstring := string_quote h
  simp only [Wrapper.quote, List.cons_append] at hstring ⊢
  simp [value, hstring, bind, Except.bind]

/-! ## Numbers -/

/-- What a number begins with. -/
def startsNumber (c : Char) : Bool :=
  isAsciiDigit c || c = '-' || c = '+' || c = '.'

theorem ofChars?_of_head {c : Char} (hdigit : isAsciiDigit c = false) (hminus : c ≠ '-')
    (hpoint : c ≠ '.') (cs : List Char) : Numeral.ofChars? (c :: cs) = none := by
  simp [Numeral.ofChars?, Numeral.spanDigits, hdigit, hminus, hpoint]

/-- A number begins with a digit, a sign or a point, or it is the infinity. -/
theorem startsNumber_of_number (h : number cs = .ok (v, [])) :
    (∃ c tail, cs = c :: tail ∧ startsNumber c = true) ∨ cs = "Infinity".toList := by
  cases cs with
  | nil => cases h
  | cons c cs =>
    cases hc : startsNumber c with
    | true => exact .inl ⟨c, cs, rfl, hc⟩
    | false =>
      right
      simp only [startsNumber, Bool.or_eq_false_iff, decide_eq_false_iff_not] at hc
      obtain ⟨⟨⟨hdigit, hminus⟩, hplus⟩, hpoint⟩ := hc
      have hsign : sign (c :: cs) = ([], c :: cs) := by simp [sign, hminus, hplus]
      -- without one of these in front there is no numeral, which leaves the word
      have hnone : Numeral.ofChars? (unsignPlus (numberRun (c :: cs)).1) = none := by
        have happend := numberRun_append (c :: cs)
        cases htaken : (numberRun (c :: cs)).1 with
        | nil => rfl
        | cons d taken =>
          rw [htaken] at happend
          obtain ⟨rfl, -⟩ := List.cons.inj happend
          have hunsign : unsignPlus (d :: taken) = d :: taken := by simp [unsignPlus, hplus]
          rw [hunsign]
          exact ofChars?_of_head hdigit hminus hpoint taken
      simp only [number, hsign, List.nil_append, hnone] at h
      split at h
      · split at h
        · rename_i hword
          simp only [Except.ok.injEq, Prod.mk.injEq] at h
          have happend := identifier_append (c :: cs)
          rwa [h.2, List.append_nil, hword, eq_comm] at happend
        · cases h
      · cases h

/-- A number is a value, also where it is an infinity without a sign. -/
theorem value_number (h : number cs = .ok (v, [])) : ∃ w, value now (depth + 1) cs = .ok (w, []) := by
  obtain ⟨c, tail, rfl, hc⟩ | rfl := startsNumber_of_number h
  · have hne : ∀ d : Char, startsNumber d = false → c ≠ d := by
      rintro d hd rfl
      simp [hd] at hc
    simp only [startsNumber] at hc
    refine ⟨v, ?_⟩
    simp only [value, hne '{' rfl, hne '[' rfl, hne '"' rfl, hne '\'' rfl, hne '/' rfl, hc,
      decide_false, Bool.or_self, Bool.false_eq_true, if_false, if_true, h]
  · have hstart : isIdentStart 'I' = true := by decide +kernel
    have hword : identifier ['I', 'n', 'f', 'i', 'n', 'i', 't', 'y'] =
        (['I', 'n', 'f', 'i', 'n', 'i', 't', 'y'], []) := by decide +kernel
    have hname : String.ofList ['I', 'n', 'f', 'i', 'n', 'i', 't', 'y'] = "Infinity" := rfl
    refine ⟨.double (.infinity false), ?_⟩
    have hkeyword : keyword now ['I', 'n', 'f', 'i', 'n', 'i', 't', 'y'] =
        .ok (.double (.infinity false), []) := by
      simp [keyword, hword, hname]
    simpa [value, hstart, isAsciiDigit] using hkeyword

theorem numberRun_digits {ds : List Char} (h : ∀ c ∈ ds, isAsciiDigit c = true) :
    numberRun ds = (ds, []) := by
  induction ds with
  | nil => rfl
  | cons c ds ih =>
    rw [numberRun.eq_def]
    simp [h c (.head _), ih fun d hd => h d (.tail _ hd)]

theorem spanDigits_digits {ds : List Char} (h : ∀ c ∈ ds, isAsciiDigit c = true) :
    Numeral.spanDigits ds = (ds, []) := by
  have htake : ds.takeWhile isAsciiDigit = ds := List.takeWhile_eq_self_iff.2 h
  have hdrop : ds.dropWhile isAsciiDigit = [] := List.dropWhile_eq_nil_iff.2 h
  rw [Numeral.spanDigits, htake, hdrop]

/-- An integer in ASCII digits is a number. -/
theorem exists_number_whole (n : Whole) : ∃ v, number n.literal = .ok (v, []) := by
  obtain ⟨c, cs, hn⟩ := List.exists_cons_of_ne_nil n.digits.nonempty
  have hc : isAsciiDigit c = true := n.digits.digit c (by simp [hn])
  have hne : ∀ d : Char, isAsciiDigit d = false → c ≠ d := by
    rintro d hd rfl
    simp [hd] at hc
  have hrun := numberRun_digits n.digits.digit
  have hspan := spanDigits_digits n.digits.digit
  -- a minus is left to the reader of numerals, which takes it with the digits
  cases hneg : n.negative with
  | true =>
    have hread : Numeral.ofChars? ('-' :: n.digits.text) =
        some ⟨true, n.digits.text, false, [], none⟩ := by
      simp [Numeral.ofChars?, hspan, n.digits.nonempty, Numeral.exponentOf?]
    have hhead : n.digits.text.head? ≠ some 'I' := by simp [hn, hne 'I' rfl]
    have hsign : sign ('-' :: n.digits.text) = (['-'], n.digits.text) := rfl
    have hplus : unsignPlus ('-' :: n.digits.text) = '-' :: n.digits.text := rfl
    refine ⟨numeralValue ⟨true, n.digits.text, false, [], none⟩, ?_⟩
    simp only [number, Whole.literal, hneg, if_true, List.singleton_append, hsign, hhead, if_false,
      hrun, hplus, hread]
  | false =>
    have hread : Numeral.ofChars? n.digits.text = some ⟨false, n.digits.text, false, [], none⟩ := by
      rw [hn] at hspan ⊢
      simp [Numeral.ofChars?, hne '-' rfl, hspan, Numeral.exponentOf?]
    have hhead : n.digits.text.head? ≠ some 'I' := by simp [hn, hne 'I' rfl]
    have hsign : sign n.digits.text = ([], n.digits.text) := by
      simp [hn, sign, hne '-' rfl, hne '+' rfl]
    have hplus : unsignPlus n.digits.text = n.digits.text := by
      simp [hn, unsignPlus, hne '+' rfl]
    refine ⟨numeralValue ⟨false, n.digits.text, false, [], none⟩, ?_⟩
    simp only [number, Whole.literal, hneg, Bool.false_eq_true, if_false, List.nil_append, hsign,
      hhead, hrun, hplus, hread]

theorem value_whole (now : Int64) (depth : Nat) (n : Whole) :
    ∃ v, value now (depth + 1) n.literal = .ok (v, []) := by
  obtain ⟨v, hread⟩ := exists_number_whole n
  exact value_number hread

/-! ## Dates -/

/-- A date construction is read from its parenthesis on. -/
theorem value_newDate (now : Int64) (depth : Nat) (cs : List Char) :
    value now (depth + 1) (['n', 'e', 'w', ' ', 'D', 'a', 't', 'e', '('] ++ cs) =
      dateCall now ('(' :: cs) := by
  have hparenthesis : isIdentChar '(' = false := by decide +kernel
  have hspace : isIdentChar ' ' = false := by decide +kernel
  have hnew : identifier (['n', 'e', 'w'] ++ ' ' :: 'D' :: 'a' :: 't' :: 'e' :: '(' :: cs) =
      (['n', 'e', 'w'], ' ' :: 'D' :: 'a' :: 't' :: 'e' :: '(' :: cs) :=
    identifier_word (by decide) (by simpa using hspace)
  have hdate : identifier (['D', 'a', 't', 'e'] ++ '(' :: cs) = (['D', 'a', 't', 'e'], '(' :: cs) :=
    identifier_word (by decide) (by simpa using hparenthesis)
  have hword : String.ofList ['n', 'e', 'w'] = "new" := rfl
  have htrim : ∀ tail, trimStart (' ' :: 'D' :: tail) = 'D' :: tail := fun tail => rfl
  have hname : (['D', 'a', 't', 'e'] : List Char) = "Date".toList := by decide
  simp only [List.cons_append, List.nil_append] at hnew hdate ⊢
  rw [value_letter now depth (c := 'n') rfl]
  simp only [keyword, hnew, hword, htrim, hdate, if_pos hname]
  simp

theorem value_dateOf {argument : List Char} {millis : Int64}
    (hblank : ∀ c ∈ (argument ++ [')']).head?, isBlank c = false)
    (h : dateArgument now (argument ++ [')']) = .ok (millis, [')'])) :
    value now (depth + 1) (Call.dateOf argument) = .ok (.date millis, []) := by
  have htrim : trimStart (argument ++ [')']) = argument ++ [')'] := by
    cases hargument : argument ++ [')'] with
    | nil => rfl
    | cons c cs => simp [trimStart, hblank c (by simp [hargument])]
  rw [Call.dateOf, List.append_assoc, value_newDate]
  refine bind_eq_ok.2 ⟨((), argument ++ [')']), rfl, bind_eq_ok.2 ⟨(millis, [')']), ?_,
    bind_eq_ok.2 ⟨((), []), rfl, rfl⟩⟩⟩
  rw [htrim]
  exact h

/-! ## Calls -/

/-- The literal of a call other than that of a timestamp is a scalar. -/
theorem value_literal (now : Int64) (depth : Nat) (x : Shell.Call) (hx : x.wrapper ≠ .timestamp) :
    ∃ v, value now (depth + 1) x.literal = .ok (v, []) := by
  cases x with
  | objectId x | uuid x | binData kind left right x => exact ⟨_, value_quote x.plain⟩
  | newObjectId => exact ⟨_, value_quote (by simp)⟩
  | isoDate x valid =>
    obtain ⟨millis, hmillis⟩ := Option.isSome_iff_exists.1 valid
    have hstring := string_append (string_quote x.plain) [')']
    refine ⟨.date (.ofInt millis), value_dateOf (by simp [Wrapper.quote, isBlank]) ?_⟩
    simp only [Wrapper.quote, List.cons_append, List.append_assoc, List.nil_append] at hstring
    simp [Wrapper.quote, dateArgument, hstring, bind, Except.bind, hmillis]
  | isoNow =>
    have hclosing : ∀ c ∈ ([] ++ [')']).head?, isBlank c = false := by simp [isBlank]
    exact ⟨.date now, value_dateOf hclosing rfl⟩
  | numberLong n | numberInt n => exact value_whole now depth n
  | numberDecimal n =>
    obtain ⟨v, hread⟩ := n.read
    exact value_number hread
  | timestamp => exact absurd rfl hx

end ShellQuery
