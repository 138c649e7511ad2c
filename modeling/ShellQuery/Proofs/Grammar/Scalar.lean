/-
  ShellQuery.Proofs.Grammar.Scalar

  Date constructions and keywords, and from them and the other literals what the reader of values
  takes without going into a bracket. What follows a scalar does not matter as long as it may follow
  a value, so the lemmas `read` speak of the scalar alone.
-/
import ShellQuery.Proofs.Grammar.Number
import ShellQuery.Proofs.Grammar.Quoted
import ShellQuery.Proofs.Shell.Reading

namespace ShellQuery.Grammar

open Text Argument

variable {now millis : Int64} {cs rest : List Char} {v : Value}

/-! ## The arguments of date constructions -/

/-- The milliseconds that an integer counts. -/
def millisOf? : Value → Option Int64
  | .int32 n => some (.ofInt n.toInt)
  | .int64 n => some n
  | _ => none

theorem millisOf?_integerValue {negative : Bool} {amount : Nat} :
    millisOf? (integerValue negative amount) =
      if -2 ^ (63 : Nat) ≤ signed negative amount ∧ signed negative amount < 2 ^ (63 : Nat) then
        some (.ofInt (signed negative amount))
      else none := by
  simp only [integerValue]
  split_ifs with hshort hlong hlong
  · rw [millisOf?, Int32.toInt_ofInt_of_le hshort.1 hshort.2]
  · omega
  · rfl
  · rfl

/-- An integer without a plus sign that counts milliseconds is the argument of a date. -/
theorem NumberLiteral.dateArgument (h : NumberLiteral cs v) (hplus : cs.head? ≠ some '+')
    (hmillis : millisOf? v = some millis) : DateArgument now cs millis := by
  cases h with
  | integer hsign hdigits hne =>
    rw [millisOf?_integerValue] at hmillis
    split at hmillis
    · rename_i hrange
      cases hmillis
      refine .millis hsign ?_ hdigits hne hrange.1 hrange.2
      rintro rfl
      exact hplus rfl
    · cases hmillis
  | double => cases hmillis
  | infinity => cases hmillis

theorem dateArgument_number {c : Char} (hc : isAsciiDigit c = true ∨ c = '-') (cs : List Char) :
    dateArgument now (c :: cs) = number (c :: cs) >>= fun (value, rest) =>
      match millisOf? value with
      | some millis => .ok (millis, rest)
      | none => .error (faultAt (c :: cs) .badMilliseconds) := by
  have hne : ∀ d, isAsciiDigit d = false → d ≠ '-' → c ≠ d := by
    rintro d hd hminus rfl
    rcases hc with hc | hc
    · simp [hd] at hc
    · exact hminus hc
  have hnumber : (isAsciiDigit c || c = '-') = true := by simpa using hc
  simp only [Argument.dateArgument, hne ')' rfl (by decide), hne '"' rfl (by decide),
    hne '\'' rfl (by decide), hnumber, if_false, if_true, decide_false, Bool.or_self,
    Bool.false_eq_true]
  congr 1
  funext found
  obtain ⟨v, rest⟩ := found
  cases v <;> rfl

theorem DateArgument.of_read (h : dateArgument now cs = .ok (millis, rest)) :
    ∃ taken, cs = taken ++ rest ∧ DateArgument now taken millis := by
  cases cs with
  | nil => cases h
  | cons c cs =>
    -- no argument
    by_cases hclose : c = ')'
    · simp only [dateArgument, if_pos hclose] at h
      cases h
      exact ⟨[], rfl, .absent⟩
    by_cases hnumber : isAsciiDigit c = true ∨ c = '-'
    · rw [dateArgument_number hnumber] at h
      obtain ⟨⟨v, rest'⟩, hread, hmillis⟩ := bind_eq_ok.1 h
      simp only at hmillis
      split at hmillis
      · rename_i millis' hv
        cases hmillis
        -- the number begins with a digit or a minus sign, so it has no plus sign and is no word
        have hne : ∀ d, isAsciiDigit d = false → d ≠ '-' → c ≠ d := by
          rintro d hd hminus rfl
          rcases hnumber with hc | hc
          · simp [hd] at hc
          · exact hminus hc
        have hword : (c :: cs).head? ≠ some 'I' := by simpa using hne 'I' rfl (by decide)
        obtain ⟨taken, hcs, hliteral⟩ := NumberLiteral.of_read hword hread
        obtain ⟨d, tail, rfl, -⟩ := hliteral.head
        obtain ⟨rfl, -⟩ := List.cons.inj hcs
        refine ⟨c :: tail, hcs, hliteral.dateArgument ?_ hv⟩
        simpa using hne '+' rfl (by decide)
      · cases hmillis
    · simp only [dateArgument, if_neg hclose] at h
      split at h
      · -- a quoted date
        rename_i hq
        obtain ⟨⟨text, rest'⟩, hstring, hmillis⟩ := bind_eq_ok.1 h
        obtain ⟨taken, hcs, hliteral⟩ := StringLiteral.of_read (by simpa using hq) hstring
        simp only at hmillis
        split at hmillis
        · rename_i hdate
          cases hmillis
          exact ⟨taken, hcs, .text hliteral hdate⟩
        · cases hmillis
      · rw [if_neg (by simpa using hnumber)] at h
        cases h

/-- The argument of a date is read in front of the closing parenthesis, blanks aside. -/
theorem DateArgument.read {left right : List Char} (h : DateArgument now cs millis)
    (hleft : Blanks left) (hright : Blanks right) :
    ∃ after, dateArgument now (trimStart (left ++ (cs ++ (right ++ [')'])))) = .ok (millis, after) ∧
      trimStart after = [')'] := by
  have hclose : trimStart (right ++ [')']) = [')'] := trimStart_mark hright rfl []
  rw [trimStart_blanks_append hleft]
  have hstops : Stops (right ++ [')']) := (stops_mark (c := ')') (by decide) []).append hright
  cases h with
  | absent =>
    rw [List.nil_append, hclose]
    exact ⟨[')'], rfl, rfl⟩
  | millis hsign hplus hdigits hne hlow hhigh =>
    rename_i s ds negative
    refine ⟨right ++ [')'], ?_, hclose⟩
    have hliteral := NumberLiteral.integer hsign hdigits hne
    have hread := number_append hstops hliteral.read
    -- what the reader looks at to tell a number: a minus sign or the first digit
    obtain ⟨c, tail, htext, hc⟩ : ∃ c tail, s ++ ds = c :: tail ∧ (isAsciiDigit c = true ∨ c = '-') := by
      cases hsign with
      | plus => exact absurd rfl hplus
      | minus => exact ⟨'-', ds, rfl, .inr rfl⟩
      | absent =>
        obtain ⟨d, ds, rfl⟩ := List.exists_cons_of_ne_nil hne
        exact ⟨d, ds, rfl, .inl (hdigits d (.head _))⟩
    have hblank : isBlank c = false := by
      rcases hc with hc | rfl
      · exact isBlank_of_isAsciiDigit hc
      · rfl
    rw [htext, List.cons_append] at hread ⊢
    rw [trimStart_cons hblank, dateArgument_number hc]
    refine bind_eq_ok.2 ⟨_, hread, ?_⟩
    simp only [millisOf?_integerValue, if_pos (And.intro hlow hhigh), List.nil_append]
  | text hstring hdate =>
    refine ⟨right ++ [')'], ?_, hclose⟩
    obtain ⟨q, tail, rfl, hq, hread⟩ := hstring.read (right ++ [')'])
    have hquote : q ≠ ')' ∧ (q = '"' || q = '\'') = true ∧ isBlank q = false := by
      rcases hq with rfl | rfl <;> decide
    rw [List.cons_append] at hread ⊢
    rw [trimStart_cons hquote.2.2]
    simp only [dateArgument, if_neg hquote.1, hquote.2.1, if_true]
    refine bind_eq_ok.2 ⟨_, hread, ?_⟩
    simp only [hdate]

/-! ## Date constructions -/

theorem DateLiteral.of_read {word : List Char} (hword : DateWord word)
    (h : dateCall now cs = .ok (v, rest)) :
    ∃ taken, word ++ cs = taken ++ rest ∧ DateLiteral now taken v := by
  obtain ⟨⟨u, cs₁⟩, hopen, h₁⟩ := bind_eq_ok.1 h
  obtain ⟨⟨millis, cs₂⟩, hargument, h₂⟩ := bind_eq_ok.1 h₁
  obtain ⟨⟨u', cs₃⟩, hclose, h₃⟩ := bind_eq_ok.1 h₂
  cases h₃
  obtain ⟨front, hfront, hcs⟩ := eq_blanks_append_trimStart cs
  obtain ⟨left, hleft, hcs₁⟩ := eq_blanks_append_trimStart cs₁
  obtain ⟨right, hright, hcs₂⟩ := eq_blanks_append_trimStart cs₂
  obtain ⟨argument, htaken, hderives⟩ := DateArgument.of_read hargument
  refine ⟨_, ?_, .call hword hfront hleft hderives hright⟩
  rw [hcs, expect_eq_ok hopen, hcs₁, htaken, hcs₂, expect_eq_ok hclose]
  simp

theorem dateCall_read {front left right argument : List Char} (hfront : Blanks front)
    (hleft : Blanks left) (h : DateArgument now argument millis) (hright : Blanks right) :
    dateCall now (front ++ '(' :: (left ++ (argument ++ (right ++ [')'])))) =
      .ok (.date millis, []) := by
  obtain ⟨after, hread, hafter⟩ := h.read hleft hright
  have hopen := trimStart_mark (c := '(') hfront rfl (left ++ (argument ++ (right ++ [')'])))
  refine bind_eq_ok.2 ⟨((), _), by rw [hopen]; rfl, bind_eq_ok.2 ⟨_, hread, ?_⟩⟩
  simp only [hafter]
  rfl

/-- The word of a date construction is read as such. -/
theorem DateWord.read {word : List Char} (h : DateWord word)
    (hrest : ∀ c ∈ rest.head?, isIdentChar c = false) :
    keyword now (word ++ rest) = dateCall now rest := by
  have hdate : identifier ("Date".toList ++ rest) = ("Date".toList, rest) :=
    identifier_word (by decide) hrest
  cases h with
  | call => simp only [keyword, hdate, String.ofList_toList]; rfl
  | construct hgap hne =>
    rename_i gap
    obtain ⟨b, gap, rfl⟩ := List.exists_cons_of_ne_nil hne
    have hb : ∀ c ∈ ((b :: gap) ++ ("Date".toList ++ rest)).head?, isIdentChar c = false := by
      simpa only [List.cons_append, List.head?_cons, Option.mem_some, forall_eq'] using
        isIdentChar_of_isBlank (hgap b (.head _))
    have hnew : identifier ("new".toList ++ ((b :: gap) ++ ("Date".toList ++ rest))) =
        ("new".toList, (b :: gap) ++ ("Date".toList ++ rest)) := identifier_word (by decide) hb
    have htrim : trimStart ((b :: gap) ++ ("Date".toList ++ rest)) = "Date".toList ++ rest :=
      trimStart_mark (c := 'D') hgap rfl (['a', 't', 'e'] ++ rest)
    rw [List.append_assoc, List.append_assoc]
    simp only [keyword, hnew, String.ofList_toList, htrim, hdate, if_true]
    rfl

/-! ## Words -/

/-- Words and date constructions are what the reader of keywords takes. -/
theorem scalar_of_keyword (h : keyword now cs = .ok (v, rest)) :
    ∃ taken, cs = taken ++ rest ∧ Scalar now taken v := by
  have hword : ∀ {word : String}, String.ofList (identifier cs).1 = word →
      cs = word.toList ++ (identifier cs).2 := by
    rintro word rfl
    rw [String.toList_ofList, identifier_append]
  rcases keyword_eq_ok_iff.1 h with ⟨hmem, rfl⟩ | ⟨hnew, hdate, hcall⟩ | ⟨hdate, hcall⟩
  · exact ⟨_, hword rfl, .keyword hmem⟩
  · obtain ⟨gap, hgap, hrest⟩ := eq_blanks_append_trimStart (identifier cs).2
    have hname := identifier_append (trimStart (identifier cs).2)
    rw [hdate] at hname
    -- The word `new` ends where it does because a blank follows.
    have hne : gap ≠ [] := by
      rintro rfl
      have hhead := List.head?_dropWhile_not isIdentChar cs
      rw [show cs.dropWhile isIdentChar = (identifier cs).2 from rfl, hrest, List.nil_append,
        ← hname] at hhead
      have hident : isIdentChar 'D' = true := by decide +kernel
      have hstop : isIdentChar 'D' = false := hhead
      simp [hident] at hstop
    obtain ⟨taken, htaken, hderives⟩ := DateLiteral.of_read (.construct hgap hne) hcall
    refine ⟨taken, (hword hnew).trans ?_, .date hderives⟩
    rw [← htaken, List.append_assoc, List.append_assoc, hname, ← hrest]
  · obtain ⟨taken, htaken, hderives⟩ := DateLiteral.of_read .call hcall
    exact ⟨taken, (hword hdate).trans htaken, .date hderives⟩

theorem keyword_read (now : Int64) {word : String} (h : (word, v) ∈ keywords) :
    (∃ c tail, word.toList = c :: tail ∧ isAsciiLetter c = true) ∧
      keyword now word.toList = .ok (v, []) := by
  have hletters : ∀ c ∈ word.toList, isAsciiLetter c = true :=
    (by decide : ∀ entry ∈ keywords, ∀ c ∈ entry.1.toList, isAsciiLetter c = true) _ h
  have hne : word.toList ≠ [] := (by decide : ∀ entry ∈ keywords, entry.1.toList ≠ []) _ h
  have hword : identifier (word.toList ++ []) = (word.toList, []) :=
    identifier_word hletters (by simp)
  rw [List.append_nil] at hword
  constructor
  · obtain ⟨c, tail, htext⟩ := List.exists_cons_of_ne_nil hne
    exact ⟨c, tail, htext, hletters c (by simp [htext])⟩
  · rw [keyword_eq_ok_iff, hword, String.ofList_toList]
    exact .inl ⟨h, rfl⟩

theorem DateLiteral.read (h : DateLiteral now cs v) :
    (∃ c tail, cs = c :: tail ∧ isAsciiLetter c = true) ∧ keyword now cs = .ok (v, []) := by
  cases h with
  | call hword hfront hleft hargument hright =>
    refine ⟨?_, ?_⟩
    · cases hword with
      | call => exact ⟨'D', _, rfl, rfl⟩
      | construct => exact ⟨'n', _, rfl, rfl⟩
    · rw [hword.read (isIdentChar_of_mem_head? hfront _)]
      exact dateCall_read hfront hleft hargument hright

/-! ## Keys -/

theorem Key.of_read {name : String} (h : key cs = .ok (name, rest)) :
    ∃ taken, cs = taken ++ rest ∧ Key taken name := by
  cases cs with
  | nil => cases h
  | cons c cs =>
    simp only [key] at h
    split at h
    · rename_i hq
      obtain ⟨taken, htaken, hliteral⟩ := StringLiteral.of_read (by simpa using hq) h
      exact ⟨taken, htaken, .string hliteral⟩
    split at h
    · rename_i hc
      cases h
      refine ⟨_, List.takeWhile_append_dropWhile.symm, .plain (fun _ => List.mem_takeWhile_imp) ?_⟩
      simp [hc]
    · cases h

theorem Key.read {name : String} (h : Key cs name) : key cs = .ok (name, []) := by
  cases h with
  | string hstring =>
    obtain ⟨q, tail, rfl, hq, hread⟩ := hstring.read []
    have hquote : (q = '"' || q = '\'') = true := by simpa using hq
    rw [List.append_nil] at hread
    rw [key, if_pos hquote, hread]
  | plain hall hne =>
    obtain ⟨c, tail, rfl⟩ := List.exists_cons_of_ne_nil hne
    have hc := hall c (.head _)
    have hquote : ¬(c = '"' || c = '\'') = true := by
      simp only [Bool.or_eq_true, decide_eq_true_eq, not_or]
      constructor <;> rintro rfl <;> exact absurd hc (by decide +kernel)
    have htake : (c :: tail).takeWhile isKeyChar = c :: tail := List.takeWhile_eq_self_iff.2 hall
    have hdrop : (c :: tail).dropWhile isKeyChar = [] := List.dropWhile_eq_nil_iff.2 hall
    rw [key, if_neg hquote, if_pos hc, htake, hdrop]

/-! ## Scalars -/

theorem Scalar.of_read {depth : Nat} (hbrace : cs.head? ≠ some '{') (hbracket : cs.head? ≠ some '[')
    (h : value now depth cs = .ok (v, rest)) : ∃ taken, cs = taken ++ rest ∧ Scalar now taken v := by
  cases depth with
  | zero => simp [value] at h
  | succ depth =>
    cases cs with
    | nil => simp [value] at h
    | cons c cs =>
      have hc : c ≠ '{' ∧ c ≠ '[' := by simpa using And.intro hbrace hbracket
      -- what a value begins with tells what it is: a quote, a slash, a part of a number or a letter
      simp only [value, hc.1, hc.2, if_false] at h
      split at h
      · rename_i hq
        obtain ⟨⟨text, rest'⟩, hstring, hok⟩ := bind_eq_ok.1 h
        cases hok
        obtain ⟨taken, htaken, hliteral⟩ := StringLiteral.of_read (by simpa using hq) hstring
        exact ⟨taken, htaken, .string hliteral⟩
      split at h
      · rename_i hslash
        subst hslash
        obtain ⟨taken, htaken, hliteral⟩ := RegexLiteral.of_read h
        exact ⟨taken, htaken, .regex hliteral⟩
      split at h
      · rename_i hnumber
        have hword : (c :: cs).head? ≠ some 'I' := by
          rw [List.head?_cons, Ne, Option.some.injEq]
          rintro rfl
          exact absurd hnumber (by decide)
        obtain ⟨taken, htaken, hliteral⟩ := NumberLiteral.of_read hword h
        exact ⟨taken, htaken, .number hliteral⟩
      split at h
      · exact scalar_of_keyword h
      · cases h

theorem Scalar.read {depth : Nat} (h : Scalar now cs v) : value now (depth + 1) cs = .ok (v, []) := by
  cases h with
  | string hstring =>
    obtain ⟨q, tail, rfl, hq, hread⟩ := hstring.read []
    have hquote : (q = '"' || q = '\'') = true ∧ q ≠ '{' ∧ q ≠ '[' := by
      rcases hq with rfl | rfl <;> decide
    rw [List.append_nil] at hread
    simp only [value, hquote.2.1, hquote.2.2, hquote.1, if_false, if_true]
    exact bind_eq_ok.2 ⟨_, hread, rfl⟩
  | regex hregex =>
    obtain ⟨hhead, hread⟩ := hregex.read
    obtain ⟨tail, rfl⟩ := List.head?_eq_some_iff.1 hhead
    simpa [value] using hread
  | number hnumber =>
    obtain ⟨c, tail, rfl, hc⟩ := hnumber.head
    -- what begins a number begins nothing else
    have hne : ∀ d : Char, startsNumber d = false → c ≠ d := by
      rintro d hd rfl
      simp [hd] at hc
    simp only [startsNumber] at hc
    simp only [value, hne '{' rfl, hne '[' rfl, hne '"' rfl, hne '\'' rfl, hne '/' rfl, hc,
      decide_false, Bool.or_self, Bool.false_eq_true, if_false, if_true, hnumber.read]
  | keyword hkeyword =>
    obtain ⟨⟨c, tail, htext, hc⟩, hread⟩ := keyword_read now hkeyword
    rw [htext] at hread ⊢
    rw [value_letter now depth hc, hread]
  | date hdate =>
    obtain ⟨⟨c, tail, rfl, hc⟩, hread⟩ := hdate.read
    rw [value_letter now depth hc, hread]

end ShellQuery.Grammar
