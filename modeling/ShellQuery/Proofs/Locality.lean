/-
  ShellQuery.Proofs.Locality

  Reading a scalar or a key does not hang on what follows it. A reader that succeeds on a text takes
  the same from it in front of another, if that begins with a character that may follow a value or
  a key.
-/
import ShellQuery.Proofs.Literal
import ShellQuery.Proofs.Text

namespace ShellQuery

open Text Argument

variable {now : Int64} {cs rest tail : List Char}

/-- What may follow a value or a key: nothing, a blank, or one of the marks after one. -/
def Stops (rest : List Char) : Prop :=
  ∀ c ∈ rest.head?, isBlank c = true ∨ c ∈ [',', ':', ']', '}', ')']

theorem Stops.nil : Stops [] := by
  simp [Stops]

/-- Blanks may come in front of what may follow a value. -/
theorem Stops.append {gap : List Char} (hgap : Blanks gap) (h : Stops rest) :
    Stops (gap ++ rest) := by
  cases gap with
  | nil => exact h
  | cons b gap => exact fun c hc => .inl (by simpa using Option.mem_some.1 hc ▸ hgap b (.head _))

/-- What belongs to no mark and to no blank does not follow a value. -/
theorem Stops.eq_false {p : Char → Bool} (h : Stops rest)
    (hblank : ∀ c, isBlank c = true → p c = false)
    (hmark : [',', ':', ']', '}', ')'].all (fun c => !p c) = true) :
    ∀ c ∈ rest.head?, p c = false := by
  intro c hc
  rcases h c hc with hb | hm
  · exact hblank c hb
  · simpa using List.all_eq_true.1 hmark c hm

/-- What follows a value continues no identifier. The same holds of keys, flags and numbers. -/
theorem Stops.isIdentChar (h : Stops rest) : ∀ c ∈ rest.head?, isIdentChar c = false :=
  h.eq_false (fun _ => isIdentChar_of_isBlank) (by decide +kernel)

theorem Stops.isKeyChar (h : Stops rest) : ∀ c ∈ rest.head?, isKeyChar c = false :=
  h.eq_false (fun _ => isKeyChar_of_isBlank) (by decide +kernel)

theorem Stops.isAsciiLetter (h : Stops rest) : ∀ c ∈ rest.head?, isAsciiLetter c = false :=
  h.eq_false (fun c hc => by
    cases hletter : Text.isAsciiLetter c with
    | false => rfl
    | true => simp [isBlank_of_isAsciiLetter hletter] at hc) (by decide)

theorem isNumberChar_of_isBlank {c : Char} (h : isBlank c = true) : isNumberChar c = false := by
  simpa using of_isBlank (p := fun c => !isNumberChar c) (by decide +kernel) h

theorem Stops.isNumberChar (h : Stops rest) : ∀ c ∈ rest.head?, isNumberChar c = false :=
  h.eq_false (fun _ => isNumberChar_of_isBlank) (by decide)

/-! ## Runs -/

/-- A run of characters is the same in front of a text that does not continue it. -/
theorem takeWhile_append {p : Char → Bool} (cs : List Char) (h : ∀ c ∈ rest.head?, p c = false) :
    (cs ++ rest).takeWhile p = cs.takeWhile p ∧ (cs ++ rest).dropWhile p = cs.dropWhile p ++ rest := by
  induction cs with
  | nil =>
    cases rest with
    | nil => exact ⟨rfl, rfl⟩
    | cons c rest => simp [h c rfl]
  | cons c cs ih =>
    cases hc : p c with
    | false => simp [hc]
    | true => simpa [hc] using ih

/-- The identifier that a text begins with ends before what follows a value. -/
theorem identifier_append_rest (cs : List Char) (h : Stops rest) :
    identifier (cs ++ rest) = ((identifier cs).1, (identifier cs).2 ++ rest) := by
  obtain ⟨htake, hdrop⟩ := takeWhile_append cs h.isIdentChar
  simp [identifier, htake, hdrop]

/-- Where something is left behind the leading blanks, these do not reach into the rest. -/
theorem trimStart_append_rest (h : trimStart cs ≠ []) :
    trimStart (cs ++ rest) = trimStart cs ++ rest := by
  rw [trimStart, List.dropWhile_append, if_neg]
  · rfl
  · simpa [trimStart] using h

theorem push_append {c : Char} {x y : Except QueryError (List Char × List Char)}
    {text : List Char} (h : push c x = .ok (text, tail))
    (hxy : ∀ text, x = .ok (text, tail) → y = .ok (text, tail ++ rest)) :
    push c y = .ok (text, tail ++ rest) := by
  obtain ⟨text', hx, rfl⟩ := push_eq_ok h
  rw [hxy text' hx, push]

/-! ## Scalars -/

/-- A string ends at its quote, so whatever follows it is not looked at. -/
theorem stringBody_append {opening opening' text : List Char} {q : Char}
    (h : stringBody opening q cs = .ok (text, tail)) :
    stringBody opening' q (cs ++ rest) = .ok (text, tail ++ rest) := by
  fun_induction stringBody opening q cs generalizing text with
  | case2 cs =>
    cases h
    rw [List.cons_append, stringBody.eq_def]
    simp
  | case5 h₁ h₂ h₃ h₄ after n hquad hscalar hne ih =>
    simpa [stringBody, hne, hquad, hscalar] using push_append h fun text => ih
  | case8 e cs hu hne ih =>
    rw [List.cons_append, stringBody.eq_def]
    simpa [hne, hu] using push_append h fun text => ih
  | case9 c cs hne hb ih =>
    rw [List.cons_append, stringBody.eq_def]
    simpa [hne, hb] using push_append h fun text => ih
  | _ => cases h

theorem string_append {text : String} (h : string cs = .ok (text, tail)) (rest : List Char) :
    string (cs ++ rest) = .ok (text, tail ++ rest) := by
  cases cs with
  | nil => cases h
  | cons q cs =>
    obtain ⟨⟨body, tail'⟩, hbody, hok⟩ := bind_eq_ok.1 h
    cases hok
    exact bind_eq_ok.2 ⟨(body, tail ++ rest), stringBody_append hbody, rfl⟩

theorem regexBody_append {opening opening' text : List Char} {inClass : Bool}
    (h : regexBody opening inClass cs = .ok (text, tail)) :
    regexBody opening' inClass (cs ++ rest) = .ok (text, tail ++ rest) := by
  fun_induction regexBody opening inClass cs generalizing text with
  | case3 inClass e cs ih =>
    simpa [regexBody] using push_append h fun text htail => push_append htail fun text => ih
  | case4 inClass cs hb ih =>
    rw [List.cons_append, regexBody.eq_def]
    simpa using push_append h fun text => ih
  | case5 inClass cs hb ho ih =>
    rw [List.cons_append, regexBody.eq_def]
    simpa using push_append h fun text => ih
  | case6 inClass c cs hb ho hc hend =>
    cases h
    rw [List.cons_append, regexBody.eq_def]
    simp [hb, ho, hc, hend]
  | case7 inClass c cs hb ho hc hend ih =>
    rw [List.cons_append, regexBody.eq_def]
    simpa [hb, ho, hc, hend] using push_append h fun text => ih
  | _ => cases h

/-- Flags end at the first character that is no letter, and none follows a value. -/
theorem flags_append {written : List Char} (hrest : Stops rest)
    (h : flags cs = .ok (written, tail)) : flags (cs ++ rest) = .ok (written, tail ++ rest) := by
  fun_induction flags cs generalizing written with
  | case1 =>
    cases h
    cases rest with
    | nil => rfl
    | cons c rest => simp [flags, hrest.isAsciiLetter c rfl]
  | case2 c cs hc =>
    cases h
    simp [flags, hc]
  | case3 c cs hc hflag ih =>
    rw [List.cons_append, flags, if_neg hc, if_pos hflag]
    exact push_append h fun text => ih
  | case4 => cases h

theorem regex_append {v : Value} (hrest : Stops rest) (h : regex cs = .ok (v, tail)) :
    regex (cs ++ rest) = .ok (v, tail ++ rest) := by
  cases cs with
  | nil => cases h
  | cons c cs =>
    obtain ⟨⟨pattern, tail₁⟩, hbody, h₁⟩ := bind_eq_ok.1 h
    obtain ⟨⟨written, tail₂⟩, hflags, hok⟩ := bind_eq_ok.1 h₁
    cases hok
    exact bind_eq_ok.2 ⟨_, regexBody_append hbody, bind_eq_ok.2 ⟨_, flags_append hrest hflags, rfl⟩⟩

theorem numberRun_of_not_isNumberChar (h : ∀ c ∈ cs.head?, isNumberChar c = false) :
    numberRun cs = ([], cs) := by
  cases cs with
  | nil => rfl
  | cons c cs =>
    have hc : isNumberChar c = false := h c rfl
    simp only [isNumberChar, Bool.or_eq_false_iff, decide_eq_false_iff_not] at hc
    rw [numberRun.eq_def]
    simp [hc]

/-- A number ends before what follows a value, also where that comes after an exponent mark. -/
theorem numberRun_append_rest (cs : List Char) (h : Stops rest) :
    numberRun (cs ++ rest) = ((numberRun cs).1, (numberRun cs).2 ++ rest) := by
  have hrest := numberRun_of_not_isNumberChar h.isNumberChar
  fun_induction numberRun cs with
  | case1 => exact hrest
  | case2 c cs hc taken after hcs ih =>
    rw [hcs] at ih
    rw [List.cons_append, numberRun.eq_def]
    simp [hc, ih]
  | case3 c hc he =>
    rw [List.cons_append, List.nil_append, numberRun.eq_def]
    simp only [hc, he, if_true, Bool.false_eq_true, if_false]
    cases rest with
    | nil => rfl
    | cons d rest =>
      have hd : isNumberChar d = false := h.isNumberChar d rfl
      simp only [isNumberChar, Bool.or_eq_false_iff, decide_eq_false_iff_not] at hd
      simp [hd, hrest]
  | case4 c hc he d after hd taken rest' hafter ih =>
    rw [hafter] at ih
    simp [numberRun, hc, he, hd, ih]
  | case5 c hc he d after hd taken rest' hafter ih =>
    rw [hafter, List.cons_append] at ih
    simp [numberRun, hc, he, hd, ih]
  | case6 c cs hc he =>
    rw [List.cons_append, numberRun.eq_def]
    simp [hc, he]

/-- A number is read as the same in front of what may follow it. -/
theorem number_append {v : Value} (hrest : Stops rest) (h : number cs = .ok (v, tail)) :
    number (cs ++ rest) = .ok (v, tail ++ rest) := by
  cases cs with
  | nil => cases h
  | cons c cs =>
    have hsign : sign (c :: cs ++ rest) = ((sign (c :: cs)).1, (sign (c :: cs)).2 ++ rest) := by
      simp only [List.cons_append, sign]
      split <;> rfl
    have hword := identifier_append_rest (sign (c :: cs)).2 hrest
    have hrun := numberRun_append_rest (sign (c :: cs)).2 hrest
    have hhead : ((sign (c :: cs)).2 ++ rest).head? = some 'I' ↔
        (sign (c :: cs)).2.head? = some 'I' := by
      cases (sign (c :: cs)).2 with
      | nil =>
        have hne : rest.head? ≠ some 'I' := fun hI => by cases hrest.isAsciiLetter 'I' hI
        simp [hne]
      | cons d after => simp
    simp only [number, hsign, hhead, hword, hrun] at h ⊢
    split at h
    · rename_i hinfinity
      rw [if_pos hinfinity]
      split at h
      · rename_i hname
        cases h
        rw [if_pos hname]
      · cases h
    · rename_i hinfinity
      rw [if_neg hinfinity]
      split at h
      · cases h
        rfl
      · cases h

/-! ## Words -/

/-- A word of letters is the identifier that it begins, up to the first other character. -/
theorem identifier_word {word : List Char} (hword : ∀ c ∈ word, isAsciiLetter c = true)
    (hrest : ∀ c ∈ rest.head?, isIdentChar c = false) :
    identifier (word ++ rest) = (word, rest) := by
  have hident : ∀ c ∈ word, isIdentChar c = true := fun c hc =>
    isIdentChar_of_isAsciiLetter (hword c hc)
  have hstop : rest.takeWhile isIdentChar = [] ∧ rest.dropWhile isIdentChar = rest := by
    cases rest with
    | nil => exact ⟨rfl, rfl⟩
    | cons c rest => simp [hrest c rfl]
  rw [identifier, List.takeWhile_append_of_pos hident, List.dropWhile_append_of_pos hident, hstop.1,
    hstop.2, List.append_nil]

/-- A value that begins with a letter is read as a keyword. -/
theorem value_letter (now : Int64) (depth : Nat) {c : Char} (hc : isAsciiLetter c = true)
    (cs : List Char) :
    value now (depth + 1) (c :: cs) = keyword now (c :: cs) := by
  have hne : ∀ d : Char, isAsciiLetter d = false → c ≠ d := by
    rintro d hd rfl
    simp [hd] at hc
  have hdigit : isAsciiDigit c = false := by
    cases hd : isAsciiDigit c with
    | false => rfl
    | true => simp [isAsciiLetter_of_isAsciiDigit hd] at hc
  simp [value, hne '{' rfl, hne '[' rfl, hne '"' rfl, hne '\'' rfl, hne '/' rfl, hne '-' rfl,
    hne '+' rfl, hne '.' rfl, hdigit, isIdentStart_of_isAsciiLetter hc]

theorem isIdentChar_of_mem_head? {gap : List Char} (hgap : Blanks gap) (rest : List Char) :
    ∀ c ∈ (gap ++ '(' :: rest).head?, isIdentChar c = false := by
  cases gap with
  | nil =>
    have hmark : isIdentChar '(' = false := by decide +kernel
    simpa using hmark
  | cons b gap => simpa using isIdentChar_of_isBlank (hgap b (.head _))

/-! ## Dates and keywords -/

/-- What a date construction holds is read as the same in front of what may follow a value. -/
theorem dateArgument_append {millis : Int64} (hrest : Stops rest)
    (h : dateArgument now cs = .ok (millis, tail)) :
    dateArgument now (cs ++ rest) = .ok (millis, tail ++ rest) := by
  cases cs with
  | nil => cases h
  | cons c cs =>
    simp only [List.cons_append, dateArgument] at h ⊢
    split at h
    · rename_i hc
      cases h
      rw [if_pos hc]
      rfl
    rename_i hc
    rw [if_neg hc]
    split at h
    · rename_i hq
      rw [if_pos hq]
      obtain ⟨⟨text, tail'⟩, hstring, hmillis⟩ := bind_eq_ok.1 h
      refine bind_eq_ok.2 ⟨(text, tail' ++ rest), string_append hstring rest, ?_⟩
      simp only at hmillis ⊢
      split at hmillis
      · cases hmillis
        rfl
      · cases hmillis
    rename_i hq
    rw [if_neg hq]
    split at h
    · rename_i hd
      rw [if_pos hd]
      obtain ⟨⟨v, tail'⟩, hnumber, hmillis⟩ := bind_eq_ok.1 h
      refine bind_eq_ok.2 ⟨(v, tail' ++ rest), number_append hrest hnumber, ?_⟩
      simp only at hmillis ⊢
      split at hmillis
      · cases hmillis
        rfl
      · cases hmillis
        rfl
      · cases hmillis
    · cases h

theorem expect_append {wanted : Char} {u : Unit} (h : expect wanted cs = .ok (u, tail)) :
    expect wanted (cs ++ rest) = .ok (u, tail ++ rest) := by
  rw [expect_eq_ok h]
  simp [expect]

theorem trimStart_ne_nil_of_expect {wanted : Char} {u : Unit}
    (h : expect wanted (trimStart cs) = .ok (u, tail)) : trimStart cs ≠ [] := by
  rw [expect_eq_ok h]
  simp

/-- A date construction ends at its parenthesis. -/
theorem dateCall_append {v : Value} (hrest : Stops rest) (h : dateCall now cs = .ok (v, tail)) :
    dateCall now (cs ++ rest) = .ok (v, tail ++ rest) := by
  obtain ⟨⟨u, cs₁⟩, hopen, h₁⟩ := bind_eq_ok.1 h
  obtain ⟨⟨millis, cs₂⟩, hargument, h₂⟩ := bind_eq_ok.1 h₁
  obtain ⟨⟨u', cs₃⟩, hclose, h₃⟩ := bind_eq_ok.1 h₂
  cases h₃
  have hargument' : trimStart cs₁ ≠ [] := by
    intro hnil
    simp only [hnil] at hargument
    cases hargument
  refine bind_eq_ok.2 ⟨(u, cs₁ ++ rest), ?_, bind_eq_ok.2 ⟨(millis, cs₂ ++ rest), ?_,
    bind_eq_ok.2 ⟨(u', _), ?_, rfl⟩⟩⟩
  · rw [trimStart_append_rest (trimStart_ne_nil_of_expect hopen)]
    exact expect_append hopen
  · rw [trimStart_append_rest hargument']
    exact dateArgument_append hrest hargument
  · rw [trimStart_append_rest (trimStart_ne_nil_of_expect hclose)]
    exact expect_append hclose

/-- The word is the same with the rest behind it, so it is read as the same. -/
theorem keyword_append {v : Value} (hrest : Stops rest) (h : keyword now cs = .ok (v, tail)) :
    keyword now (cs ++ rest) = .ok (v, tail ++ rest) := by
  rw [keyword_eq_ok_iff] at h ⊢
  rw [identifier_append_rest cs hrest]
  rcases h with ⟨hword, rfl⟩ | ⟨hnew, hname, hcall⟩ | ⟨hdate, hcall⟩
  · exact .inl ⟨hword, rfl⟩
  · -- a date call starts behind blanks, and so does not reach into the rest
    have hne : trimStart (identifier cs).2 ≠ [] := by
      intro hnil
      rw [hnil] at hname
      exact absurd hname (by decide)
    refine .inr (.inl ⟨hnew, ?_⟩)
    rw [trimStart_append_rest hne, identifier_append_rest _ hrest]
    exact ⟨hname, dateCall_append hrest hcall⟩
  · exact .inr (.inr ⟨hdate, dateCall_append hrest hcall⟩)

/-! ## Keys and values -/

/-- A key is read as the same in front of what may follow it. -/
theorem key_append {name : String} (hrest : Stops rest) (h : key cs = .ok (name, tail)) :
    key (cs ++ rest) = .ok (name, tail ++ rest) := by
  cases cs with
  | nil => cases h
  | cons c cs =>
    rw [List.cons_append]
    simp only [key] at h ⊢
    split at h
    · rename_i hq
      rw [if_pos hq]
      exact string_append h rest
    rename_i hq
    rw [if_neg hq]
    split at h
    · rename_i hc
      cases h
      obtain ⟨htake, hdrop⟩ := takeWhile_append (c :: cs) hrest.isKeyChar
      rw [if_pos hc, ← List.cons_append, htake, hdrop]
    · cases h

/-- A value that is read without going into a bracket is read at any depth. -/
theorem value_append {depth : Nat} {v : Value} (hrest : Stops rest)
    (h : value now 1 cs = .ok (v, tail)) :
    value now (depth + 1) (cs ++ rest) = .ok (v, tail ++ rest) := by
  obtain ⟨hbrace, hbracket⟩ := head?_of_value h
  cases cs with
  | nil => simp [value] at h
  | cons c cs =>
    have hc : c ≠ '{' ∧ c ≠ '[' := by simpa using And.intro hbrace hbracket
    rw [List.cons_append]
    simp only [value, hc.1, hc.2, if_false] at h ⊢
    split at h
    · rename_i hq
      rw [if_pos hq]
      obtain ⟨⟨text, tail'⟩, hstring, hok⟩ := bind_eq_ok.1 h
      cases hok
      exact bind_eq_ok.2 ⟨_, string_append hstring rest, rfl⟩
    rename_i hq
    rw [if_neg hq]
    split at h
    · rename_i hslash
      rw [if_pos hslash]
      exact regex_append hrest h
    rename_i hslash
    rw [if_neg hslash]
    split at h
    · rename_i hn
      rw [if_pos hn]
      exact number_append hrest h
    rename_i hn
    rw [if_neg hn]
    split at h
    · rename_i hk
      rw [if_pos hk]
      exact keyword_append hrest h
    · cases h

end ShellQuery
