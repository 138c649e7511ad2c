/-
  ShellQuery.Proofs.Reader

  What it means that a reader of arguments succeeds: which pieces the text has, and which readers
  took them. Every later statement about accepted texts starts from these, so none of them opens a
  reader.
-/
import Mathlib.Data.List.TakeWhile
import ShellQuery.Argument.Reader

namespace ShellQuery

open Text Argument

/-- What is said of every character of a text is decided along the text. Where `Char` as a whole
can be searched, this is to be found first: that search passes over every code point. -/
scoped instance (priority := 2000) decidableForallMemText {p : Char → Prop} [DecidablePred p]
    (cs : List Char) : Decidable (∀ c ∈ cs, p c) :=
  List.decidableBAll p cs

/-! ## Computations that succeed -/

theorem bind_eq_ok {ε α β : Type} {x : Except ε α} {f : α → Except ε β} {b : β} :
    x >>= f = .ok b ↔ ∃ a, x = .ok a ∧ f a = .ok b := by
  match x with
  | .error e => simp [bind, Except.bind]
  | .ok a => simp [bind, Except.bind]

theorem exists_of_isOk {ε α : Type} {x : Except ε α} (h : x.isOk = true) : ∃ a, x = .ok a := by
  match x with
  | .error e => cases h
  | .ok a => exact ⟨a, rfl⟩

theorem push_eq_ok {c : Char} {x : Except QueryError (List Char × List Char)} {cs rest : List Char}
    (h : push c x = .ok (cs, rest)) : ∃ tail, x = .ok (tail, rest) ∧ cs = c :: tail := by
  match x with
  | .error e => simp [push] at h
  | .ok (tail, rest') =>
    simp only [push, Except.ok.injEq, Prod.mk.injEq] at h
    obtain ⟨rfl, rfl⟩ := h
    exact ⟨tail, rfl, rfl⟩

theorem expect_eq_ok {wanted : Char} {cs rest : List Char} {u : Unit}
    (h : expect wanted cs = .ok (u, rest)) : cs = wanted :: rest := by
  cases cs with
  | nil => simp [expect] at h
  | cons c cs =>
    simp only [expect] at h
    split at h
    · rename_i hc
      cases h
      rw [hc]
    · cases h

/-! ## Blanks -/

/-- A text of nothing but blanks. -/
def Blanks (cs : List Char) : Prop :=
  ∀ c ∈ cs, isBlank c = true

theorem Blanks.nil : Blanks [] := by
  simp [Blanks]

theorem Blanks.space : Blanks [' '] := by
  simp [Blanks, isBlank]

/-- A text is its leading blanks and what is left of it. -/
theorem eq_blanks_append_trimStart (cs : List Char) :
    ∃ blanks, Blanks blanks ∧ cs = blanks ++ trimStart cs :=
  ⟨cs.takeWhile isBlank, fun _ => List.mem_takeWhile_imp, List.takeWhile_append_dropWhile.symm⟩

theorem trimStart_blanks_append {gap : List Char} (h : Blanks gap) (cs : List Char) :
    trimStart (gap ++ cs) = trimStart cs :=
  List.dropWhile_append_of_pos h

theorem trimStart_cons {c : Char} (h : isBlank c = false) (cs : List Char) :
    trimStart (c :: cs) = c :: cs := by
  simp [trimStart, h]

/-! ## Scalars -/

theorem isAsciiLetter_of_flags {cs written rest : List Char} (h : flags cs = .ok (written, rest)) :
    cs = written ++ rest ∧ ∀ c ∈ written, isAsciiLetter c = true ∧ c ∈ regexFlags := by
  fun_induction flags cs generalizing written with
  | case1 => cases h; simp
  | case2 c cs hc => cases h; simp
  | case3 c cs hc hflag ih =>
    obtain ⟨tail, htail, rfl⟩ := push_eq_ok h
    obtain ⟨rfl, hall⟩ := ih htail
    refine ⟨rfl, ?_⟩
    simp only [List.mem_cons, forall_eq_or_imp]
    exact ⟨⟨by simpa using hc, by simpa using hflag⟩, hall⟩
  | case4 => cases h

/-- What a number without an infinity is made of. -/
def isNumberChar (c : Char) : Bool :=
  isAsciiDigit c || c = '.' || c = 'e' || c = 'E' || c = '-' || c = '+'

theorem isNumberChar_of_numberRun (cs : List Char) :
    ∀ c ∈ (numberRun cs).1, isNumberChar c = true := by
  fun_induction numberRun cs with
  | case1 => simp
  | case2 c cs hc taken rest htaken ih => simp_all [isNumberChar]
  | case3 c hc he => simp_all [isNumberChar]
  | case4 c hc he s after hs taken rest htaken ih =>
    simp_all [isNumberChar]
    exact hs.elim (.inl ∘ .inr) .inr
  | case5 c hc he s after hs taken rest htaken ih =>
    simp_all [isNumberChar]
  | case6 => simp

/-- The sign of a number, if there is one. -/
theorem sign_cases (cs : List Char) :
    (sign cs).1 = [] ∨ (sign cs).1 = ['-'] ∨ (sign cs).1 = ['+'] := by
  cases cs with
  | nil => exact .inl rfl
  | cons c cs =>
    simp only [sign]
    split
    · rename_i h
      simp only [Bool.or_eq_true, decide_eq_true_eq] at h
      rcases h with rfl | rfl <;> simp
    · exact .inl rfl

/-- A number is a sign and an infinity, or characters of numbers. -/
theorem number_eq_ok {cs rest : List Char} {v : Value} (h : number cs = .ok (v, rest)) :
    ∃ signed taken, cs = signed ++ taken ++ rest ∧ (signed = [] ∨ signed = ['-'] ∨ signed = ['+']) ∧
      (taken = "Infinity".toList ∨ ∀ c ∈ taken, isNumberChar c = true) := by
  simp only [number] at h
  split at h
  · split at h
    · rename_i hword
      cases h
      refine ⟨(sign cs).1, (identifier (sign cs).2).1, ?_, sign_cases cs, .inl hword⟩
      rw [List.append_assoc, identifier_append, sign_append]
    · cases h
  · split at h
    · cases h
      refine ⟨(sign cs).1, (numberRun (sign cs).2).1, ?_, sign_cases cs,
        .inr (isNumberChar_of_numberRun _)⟩
      rw [List.append_assoc, numberRun_append, sign_append]
    · cases h

section
variable {now : Int64} {depth : Nat} {cs rest : List Char} {v : Value}

/-! ## Words -/

/-- The words that are read as values by themselves. -/
def valueWords : List (String × Value) :=
  [("true", .bool true), ("false", .bool false), ("null", .null), ("undefined", .null),
    ("NaN", .double .nan), ("Infinity", .double (.infinity false))]

/-- A word is read as its value, and what follows the word `Date`, with the word `new` in front or
    without, as a date. -/
theorem keyword_eq_ok_iff : keyword now cs = .ok (v, rest) ↔
    ((String.ofList (identifier cs).1, v) ∈ valueWords ∧ rest = (identifier cs).2) ∨
    (String.ofList (identifier cs).1 = "new" ∧
      (identifier (trimStart (identifier cs).2)).1 = "Date".toList ∧
      dateCall now (identifier (trimStart (identifier cs).2)).2 = .ok (v, rest)) ∨
    (String.ofList (identifier cs).1 = "Date" ∧ dateCall now (identifier cs).2 = .ok (v, rest)) := by
  simp only [keyword]
  generalize (identifier cs).2 = after
  generalize String.ofList (identifier cs).1 = word
  constructor
  · intro h
    have hplain : ∀ {w : Value}, (word, w) ∈ valueWords →
        (.ok (w, after) : Except QueryError _) = .ok (v, rest) →
        (word, v) ∈ valueWords ∧ rest = after := by
      intro w hmem hw
      cases hw
      exact ⟨hmem, rfl⟩
    split_ifs at h with htrue hfalse hnull hnan hinfinity hnew hnamed hdate
    · exact .inl (hplain (by simp [htrue, valueWords]) h)
    · exact .inl (hplain (by simp [hfalse, valueWords]) h)
    · simp only [Bool.or_eq_true, decide_eq_true_eq] at hnull
      refine .inl (hplain ?_ h)
      rcases hnull with rfl | rfl <;> simp [valueWords]
    · exact .inl (hplain (by simp [hnan, valueWords]) h)
    · exact .inl (hplain (by simp [hinfinity, valueWords]) h)
    · exact .inr (.inl ⟨hnew, hnamed, h⟩)
    · exact .inr (.inr ⟨hdate, h⟩)
  · rintro (⟨hmem, rfl⟩ | ⟨rfl, hnamed, h⟩ | ⟨rfl, h⟩)
    · simp only [valueWords, List.mem_cons, Prod.mk.injEq, List.not_mem_nil, or_false] at hmem
      rcases hmem with ⟨rfl, rfl⟩ | ⟨rfl, rfl⟩ | ⟨rfl, rfl⟩ | ⟨rfl, rfl⟩ | ⟨rfl, rfl⟩ | ⟨rfl, rfl⟩
      all_goals rfl
    · simp [hnamed, h]
    · simp [h]

/-! ## Brackets -/

/-- A value that is read without going into a bracket begins with none. -/
theorem head?_of_value (h : value now 1 cs = .ok (v, rest)) :
    cs.head? ≠ some '{' ∧ cs.head? ≠ some '[' := by
  constructor
  · intro hhead
    obtain ⟨tail, rfl⟩ := List.head?_eq_some_iff.1 hhead
    simp [value, fields] at h
  · intro hhead
    obtain ⟨tail, rfl⟩ := List.head?_eq_some_iff.1 hhead
    simp [value, items] at h

/-- What stands before the first field of an object is its closing brace, or a field with what
    parts it from the rest. -/
theorem fields_eq_ok {read : Document} (h : fields now (depth + 1) read cs = .ok (v, rest)) :
    (∃ front, Blanks front ∧ cs = front ++ '}' :: rest ∧ v = .document read) ∨
    ∃ front text name left right body w back c after,
      Blanks front ∧ cs = front ++ text ∧
      key text = .ok (name, left ++ ':' :: (right ++ body)) ∧ Blanks left ∧ Blanks right ∧
      value now depth body = .ok (w, back ++ c :: after) ∧ Blanks back ∧
      (c = ',' ∧ fields now depth (read.insert name w) after = .ok (v, rest) ∨
        c = '}' ∧ after = rest ∧ v = .document (read.insert name w)) := by
  obtain ⟨front, hfront, hcs⟩ := eq_blanks_append_trimStart cs
  simp only [fields] at h
  split at h
  · rename_i hclose
    cases h
    -- the closing brace
    refine .inl ⟨front, hfront, ?_, rfl⟩
    cases htrim : trimStart cs with
    | nil => simp [htrim] at hclose
    | cons c tail =>
      rw [htrim, List.head?_cons, Option.some.injEq] at hclose
      rwa [htrim, hclose] at hcs
  · -- a name, a colon and a value, with the blanks that the reader skips between them
    obtain ⟨⟨name, cs₁⟩, hkey, h₁⟩ := bind_eq_ok.1 h
    obtain ⟨⟨u, cs₂⟩, hcolon, h₂⟩ := bind_eq_ok.1 h₁
    obtain ⟨⟨w, cs₃⟩, hvalue, h₃⟩ := bind_eq_ok.1 h₂
    simp only at hcolon hvalue h₃
    obtain ⟨left, hleft, hcs₁⟩ := eq_blanks_append_trimStart cs₁
    obtain ⟨right, hright, hcs₂⟩ := eq_blanks_append_trimStart cs₂
    obtain ⟨back, hback, hcs₃⟩ := eq_blanks_append_trimStart cs₃
    cases htrim : trimStart cs₃ with
    | nil => simp [htrim] at h₃
    | cons c after =>
      refine .inr ⟨front, trimStart cs, name, left, right, trimStart cs₂, w, back, c, after,
        hfront, hcs, ?_, hleft, hright, ?_, hback, ?_⟩
      · rw [hkey, ← hcs₂, ← expect_eq_ok hcolon, ← hcs₁]
      · rw [hvalue, ← htrim, ← hcs₃]
      · -- a comma goes on, and a brace ends the object
        simp only [htrim] at h₃
        split at h₃
        · exact .inl ⟨‹_›, h₃⟩
        split at h₃
        · cases h₃
          exact .inr ⟨‹_›, rfl, rfl⟩
        · cases h₃

/-- What stands before the first item of an array is its closing bracket, or an item with what
    parts it from the rest. -/
theorem items_eq_ok {read : List Value} (h : items now (depth + 1) read cs = .ok (v, rest)) :
    (∃ front, Blanks front ∧ cs = front ++ ']' :: rest ∧ v = .array read) ∨
    ∃ front body w back c after, Blanks front ∧ cs = front ++ body ∧
      value now depth body = .ok (w, back ++ c :: after) ∧ Blanks back ∧
      (c = ',' ∧ items now depth (read ++ [w]) after = .ok (v, rest) ∨
        c = ']' ∧ after = rest ∧ v = .array (read ++ [w])) := by
  obtain ⟨front, hfront, hcs⟩ := eq_blanks_append_trimStart cs
  simp only [items] at h
  split at h
  · rename_i hclose
    cases h
    -- the closing bracket
    refine .inl ⟨front, hfront, ?_, rfl⟩
    cases htrim : trimStart cs with
    | nil => simp [htrim] at hclose
    | cons c tail =>
      rw [htrim, List.head?_cons, Option.some.injEq] at hclose
      rwa [htrim, hclose] at hcs
  · -- a value, and the blanks behind it
    obtain ⟨⟨w, cs₁⟩, hvalue, h₁⟩ := bind_eq_ok.1 h
    simp only at hvalue h₁
    obtain ⟨back, hback, hcs₁⟩ := eq_blanks_append_trimStart cs₁
    cases htrim : trimStart cs₁ with
    | nil => simp [htrim] at h₁
    | cons c after =>
      refine .inr ⟨front, trimStart cs, w, back, c, after, hfront, hcs, ?_, hback, ?_⟩
      · rw [hvalue, ← htrim, ← hcs₁]
      · -- a comma goes on, and a bracket ends the array
        simp only [htrim] at h₁
        split at h₁
        · exact .inl ⟨‹_›, h₁⟩
        split at h₁
        · cases h₁
          exact .inr ⟨‹_›, rfl, rfl⟩
        · cases h₁

/-- What stands before the first value of a list is its end, or a value with what parts it from the
    rest. -/
theorem values_eq_ok {steps : Nat} {read vs : List Value}
    (h : values now (steps + 1) read cs = .ok vs) :
    (Blanks cs ∧ vs = read) ∨
    ∃ front body w back after, Blanks front ∧ cs = front ++ body ∧
      readValue now body = .ok (w, back ++ after) ∧ Blanks back ∧
      (after = [] ∧ vs = read ++ [w] ∨
        ∃ tail, after = ',' :: tail ∧ values now steps (read ++ [w]) tail = .ok vs) := by
  obtain ⟨front, hfront, hcs⟩ := eq_blanks_append_trimStart cs
  simp only [values] at h
  split at h
  · rename_i hend
    cases h
    rw [hend, List.append_nil] at hcs
    exact .inl ⟨hcs ▸ hfront, rfl⟩
  · obtain ⟨⟨w, cs₁⟩, hvalue, h₁⟩ := bind_eq_ok.1 h
    simp only at hvalue h₁
    obtain ⟨back, hback, hcs₁⟩ := eq_blanks_append_trimStart cs₁
    refine .inr ⟨front, trimStart cs, w, back, trimStart cs₁, hfront, hcs, ?_, hback, ?_⟩
    · rw [hvalue, ← hcs₁]
    · split at h₁
      · cases h₁
        exact .inl ⟨‹_›, rfl⟩
      · obtain ⟨⟨u, tail⟩, hcomma, h₂⟩ := bind_eq_ok.1 h₁
        exact .inr ⟨tail, expect_eq_ok hcomma, h₂⟩

end

end ShellQuery
