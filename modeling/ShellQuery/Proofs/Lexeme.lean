/-
  ShellQuery.Proofs.Lexeme

  What the scalars of argument texts look like. Whatever the readers take for a key or a scalar is
  an inert stretch of code, a string, a regular expression with its flags, or a date construction
  around one of the first two. Statements about accepted texts split on these and open no reader.
-/
import ShellQuery.Proofs.Literal

namespace ShellQuery

open Text Argument

/-! ## Inert characters -/

/-- The characters that open or close something in code. -/
def marks : List Char :=
  ['"', '\'', '/', '(', '[', '{', ')', ']', '}']

/-- A character that neither opens nor closes anything in code. -/
def isInert (c : Char) : Bool :=
  !marks.contains c

/-- A class of characters without marks is inert. -/
theorem isInert_of_class {p : Char → Bool} (hp : marks.all (fun m => !p m) = true) {c : Char}
    (hc : p c = true) : isInert c = true := by
  simp only [isInert, Bool.not_eq_true', List.contains_eq_mem, decide_eq_false_iff_not]
  intro hmark
  have hpc := List.all_eq_true.1 hp c hmark
  simp [hc] at hpc

theorem isInert_of_isBlank {c : Char} (h : isBlank c = true) : isInert c = true :=
  isInert_of_class (by decide) h

theorem isInert_of_isNumberChar {c : Char} (h : isNumberChar c = true) : isInert c = true :=
  isInert_of_class (by decide) h

theorem isInert_of_isIdentChar {c : Char} (h : isIdentChar c = true) : isInert c = true :=
  isInert_of_class (by decide) h

theorem isInert_of_isKeyChar {c : Char} (h : isKeyChar c = true) : isInert c = true :=
  isInert_of_class (by decide) h

theorem isInert_of_isAsciiLetter {c : Char} (h : isAsciiLetter c = true) : isInert c = true :=
  isInert_of_class (by decide) h

/-! ## Lexemes -/

/-- A stretch of inert characters, or a string. -/
inductive Atom : List Char → Prop where
  | inert {cs : List Char} (h : ∀ c ∈ cs, isInert c = true) : Atom cs
  | string {q : Char} {cs : List Char} (hq : Wrapper.isQuote q = true)
    (h : Inside q (.literal q false) cs) : Atom (q :: cs)

/-- The words before the parentheses of a date construction. -/
inductive DateWord : List Char → Prop where
  | call : DateWord ['D', 'a', 't', 'e']
  | construct {gap : List Char} (hgap : Blanks gap) :
    DateWord ('n' :: 'e' :: 'w' :: (gap ++ ['D', 'a', 't', 'e']))

/-- What a scalar looks like. -/
inductive Lexeme : List Char → Prop where
  | atom {cs : List Char} (h : Atom cs) : Lexeme cs
  | regex {body flags : List Char} (hbody : Inside '/' (.literal '/' false) body)
    (hflags : ∀ c ∈ flags, isAsciiLetter c = true) : Lexeme ('/' :: (body ++ flags))
  | date {word front left argument right : List Char} (hword : DateWord word)
    (hfront : Blanks front) (hleft : Blanks left) (hargument : Atom argument)
    (hright : Blanks right) :
    Lexeme (word ++ (front ++ '(' :: (left ++ (argument ++ (right ++ [')'])))))

/-! ## What the readers take -/

section
variable {now : Int64} {cs rest : List Char} {v : Value}

theorem atom_of_string {text : String} {q : Char} (hq : Wrapper.isQuote q = true)
    (h : string (q :: cs) = .ok (text, rest)) : ∃ taken, q :: cs = taken ++ rest ∧ Atom taken := by
  obtain ⟨taken, rfl, hinside⟩ := inside_of_string hq h
  exact ⟨q :: taken, rfl, .string hq hinside⟩

theorem atom_of_number (h : number cs = .ok (v, rest)) :
    ∃ taken, cs = taken ++ rest ∧ Atom taken := by
  obtain ⟨signed, taken, hcs, hsigned, htaken⟩ := number_eq_ok h
  refine ⟨signed ++ taken, hcs, .inert fun c hc => ?_⟩
  rcases List.mem_append.1 hc with hc | hc
  · rcases hsigned with rfl | rfl | rfl
    · cases hc
    · rw [List.mem_singleton.1 hc]; decide
    · rw [List.mem_singleton.1 hc]; decide
  · rcases htaken with rfl | hall
    · exact (by decide : ∀ c ∈ "Infinity".toList, isInert c = true) c hc
    · exact isInert_of_isNumberChar (hall c hc)

theorem atom_of_key {name : String} (h : key cs = .ok (name, rest)) :
    ∃ taken, cs = taken ++ rest ∧ Atom taken := by
  cases cs with
  | nil => cases h
  | cons c cs =>
    simp only [key] at h
    split at h
    · rename_i hq
      exact atom_of_string (by simpa [Wrapper.isQuote] using hq) h
    split at h
    · cases h
      exact ⟨_, List.takeWhile_append_dropWhile.symm, .inert fun d hd =>
        isInert_of_isKeyChar (List.mem_takeWhile_imp hd)⟩
    · cases h

theorem atom_of_dateArgument {millis : Int64} (h : dateArgument now cs = .ok (millis, rest)) :
    ∃ taken, cs = taken ++ rest ∧ Atom taken := by
  cases cs with
  | nil => cases h
  | cons c cs =>
    simp only [dateArgument] at h
    -- no argument, a quoted one, or a number
    split at h
    · cases h
      exact ⟨[], rfl, .inert (by simp)⟩
    split at h
    · rename_i hq
      obtain ⟨⟨text, rest'⟩, hstring, hmillis⟩ := bind_eq_ok.1 h
      obtain ⟨taken, htaken, hatom⟩ := atom_of_string (by simpa [Wrapper.isQuote] using hq) hstring
      refine ⟨taken, ?_, hatom⟩
      rw [htaken]
      simp only at hmillis
      split at hmillis <;> cases hmillis
      rfl
    split at h
    · obtain ⟨⟨v, rest'⟩, hnumber, hmillis⟩ := bind_eq_ok.1 h
      obtain ⟨taken, htaken, hatom⟩ := atom_of_number hnumber
      refine ⟨taken, ?_, hatom⟩
      rw [htaken]
      simp only at hmillis
      split at hmillis <;> cases hmillis <;> rfl
    · cases h

/-- After its words, a date construction is a pair of parentheses with an atom inside. -/
theorem lexeme_of_dateCall {word : List Char} (hword : DateWord word)
    (h : dateCall now cs = .ok (v, rest)) : ∃ taken, word ++ cs = taken ++ rest ∧ Lexeme taken := by
  obtain ⟨⟨u, cs₁⟩, hopen, h₁⟩ := bind_eq_ok.1 h
  obtain ⟨⟨millis, cs₂⟩, hargument, h₂⟩ := bind_eq_ok.1 h₁
  obtain ⟨⟨u', cs₃⟩, hclose, h₃⟩ := bind_eq_ok.1 h₂
  cases h₃
  obtain ⟨front, hfront, hcs⟩ := eq_blanks_append_trimStart cs
  obtain ⟨left, hleft, hcs₁⟩ := eq_blanks_append_trimStart cs₁
  obtain ⟨right, hright, hcs₂⟩ := eq_blanks_append_trimStart cs₂
  obtain ⟨argument, htaken, hatom⟩ := atom_of_dateArgument hargument
  refine ⟨_, ?_, .date hword hfront hleft hatom hright⟩
  rw [hcs, expect_eq_ok hopen, hcs₁, htaken, hcs₂, expect_eq_ok hclose]
  simp

theorem lexeme_of_keyword (h : keyword now cs = .ok (v, rest)) :
    ∃ taken, cs = taken ++ rest ∧ Lexeme taken := by
  rcases keyword_eq_ok_iff.1 h with ⟨-, rfl⟩ | ⟨hnew, hdate, hcall⟩ | ⟨hdate, hcall⟩
  · -- the word is all that is taken
    exact ⟨_, (identifier_append cs).symm, .atom (.inert fun c hc =>
      isInert_of_isIdentChar (List.mem_takeWhile_imp hc))⟩
  · obtain ⟨gap, hgap, hrest⟩ := eq_blanks_append_trimStart (identifier cs).2
    obtain ⟨taken, htaken, hlexeme⟩ := lexeme_of_dateCall (.construct hgap) hcall
    refine ⟨taken, ?_, hlexeme⟩
    have hword : (identifier cs).1 = ['n', 'e', 'w'] := by
      simpa using congrArg String.toList hnew
    have hname : (identifier (trimStart (identifier cs).2)).1 = ['D', 'a', 't', 'e'] := hdate
    -- the text is the two words with the blanks between them, and the rest of the date
    calc cs = (identifier cs).1 ++ (identifier cs).2 := (identifier_append cs).symm
      _ = ['n', 'e', 'w'] ++ (gap ++ trimStart (identifier cs).2) := by rw [hword, ← hrest]
      _ = ['n', 'e', 'w'] ++ (gap ++ (['D', 'a', 't', 'e'] ++
            (identifier (trimStart (identifier cs).2)).2)) := by rw [← hname, identifier_append]
      _ = taken ++ rest := by rw [← htaken]; simp
  · obtain ⟨taken, htaken, hlexeme⟩ := lexeme_of_dateCall .call hcall
    refine ⟨taken, ?_, hlexeme⟩
    have hword : (identifier cs).1 = ['D', 'a', 't', 'e'] := by
      simpa using congrArg String.toList hdate
    rw [← htaken, ← hword, identifier_append]

/-- A value that begins with no bracket is a lexeme. -/
theorem lexeme_of_value {depth : Nat} (hbrace : cs.head? ≠ some '{') (hbracket : cs.head? ≠ some '[')
    (h : value now depth cs = .ok (v, rest)) : ∃ taken, cs = taken ++ rest ∧ Lexeme taken := by
  cases depth with
  | zero => simp [value] at h
  | succ depth =>
    cases cs with
    | nil => simp [value] at h
    | cons c cs =>
      have hc : c ≠ '{' ∧ c ≠ '[' := by simpa using And.intro hbrace hbracket
      -- a string, a regular expression, a number or a word
      simp only [value, hc.1, hc.2, if_false] at h
      split at h
      · rename_i hq
        obtain ⟨⟨text, rest'⟩, hstring, hok⟩ := bind_eq_ok.1 h
        cases hok
        obtain ⟨taken, htaken, hatom⟩ := atom_of_string (by simpa [Wrapper.isQuote] using hq) hstring
        exact ⟨taken, htaken, .atom hatom⟩
      split at h
      · rename_i hslash
        subst hslash
        obtain ⟨body, flags, rfl, hbody, hflags⟩ := inside_of_regex h
        exact ⟨'/' :: (body ++ flags), by simp, .regex hbody hflags⟩
      split at h
      · obtain ⟨taken, htaken, hatom⟩ := atom_of_number h
        exact ⟨taken, htaken, .atom hatom⟩
      split at h
      · exact lexeme_of_keyword h
      · cases h

end

end ShellQuery
