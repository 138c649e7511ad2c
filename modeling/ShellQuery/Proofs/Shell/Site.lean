/-
  ShellQuery.Proofs.Shell.Site

  A rule at a wrapper call. The rule of the wrapper takes the call whole and puts its literal there;
  no other rule matches, also where two wrappers have one name. Unless its payload closes a call, no
  match that begins in a literal before the call reaches into it.
-/
import ShellQuery.Proofs.Shell.Reach

namespace ShellQuery.Wrapper

open Text Shell

variable {w : Wrapper} {c : Char} {gap gap' rest : List Char}

/-! ## Reading what is written -/

theorem ne_of_isQuote (h : isQuote c = true) : c ≠ ')' := by
  rintro rfl
  cases h

theorem isWordDigit_of_isQuote (h : isQuote c = true) : isWordDigit c = false := by
  simp only [isQuote, Bool.or_eq_true, decide_eq_true_eq] at h
  rcases h with rfl | rfl <;> decide +kernel

/-- A payload is read between any two quotes. -/
theorem payload?_between {q q' : Char} {content : List Char} (hgap : Blanks gap)
    (hq : isQuote q = true) (hq' : isQuote q' = true) (hne : content ≠ [])
    (hcontent : ∀ c ∈ content, isQuote c = false) (rest : List Char) :
    payload? (gap ++ q :: (content ++ q' :: rest)) = some (content, rest) := by
  have hplain : ∀ c ∈ content, (!isQuote c) = true := fun c hc => by simp [hcontent c hc]
  have hrun : run? (fun d => !isQuote d) (content ++ q' :: rest) = some (content, q' :: rest) :=
    run?_append hne hplain (by simp [hq'])
  simp [payload?, trimStart_blanks_append hgap, trimStart_cons (isBlank_of_isQuote hq), hq, hrun]

theorem payload?_quoted (hgap : Blanks gap) (x : Quoted) (rest : List Char) :
    payload? (gap ++ (x.text ++ rest)) = some (x.content, rest) := by
  simpa [Quoted.text] using payload?_between hgap x.isQuote x.isQuote x.nonempty
    (fun c hc => (x.plain c hc).1) rest

theorem run?_digits (n : Digits) (hrest : ∀ c ∈ rest.head?, isWordDigit c = false) :
    run? isWordDigit (n.text ++ rest) = some (n.text, rest) :=
  run?_append n.nonempty (fun c hc => isWordDigit_of_isAsciiDigit (n.digit c hc)) hrest

theorem trimStart_digits (n : Digits) (hgap : Blanks gap) (rest : List Char) :
    trimStart (gap ++ (n.text ++ rest)) = n.text ++ rest := by
  obtain ⟨c, cs, hn⟩ := List.exists_cons_of_ne_nil n.nonempty
  have hc := isBlank_of_isAsciiDigit (n.digit c (by simp [hn]))
  rw [trimStart_blanks_append hgap, hn, List.cons_append, trimStart_cons hc]

/-- What follows a number is no digit. -/
theorem isWordDigit_of_mem_head? (hgap : Blanks gap) (hc : c = ',' ∨ c = ')') (rest : List Char) :
    ∀ d ∈ (gap ++ c :: rest).head?, isWordDigit d = false := by
  have hmark : isWordDigit c = false := by
    rcases hc with rfl | rfl <;> decide +kernel
  cases gap with
  | nil => simpa using hmark
  | cons b gap => simpa using isWordDigit_of_isBlank (hgap b (.head _))

theorem isQuote_of_isAsciiDigit (h : isAsciiDigit c = true) : isQuote c = false := by
  cases hc : isQuote c with
  | false => rfl
  | true =>
    simp only [isQuote, Bool.or_eq_true, decide_eq_true_eq] at hc
    rcases hc with rfl | rfl <;> cases h

theorem isStop_of_isAsciiDigit (h : isAsciiDigit c = true) : isStop c = false := by
  have hne : c ≠ ')' := by
    rintro rfl
    cases h
  simp [isStop, isQuote_of_isAsciiDigit h, hne]

/-- An integer begins with its sign or a digit. -/
theorem exists_cons_of_whole (n : Whole) :
    ∃ c cs, n.literal = c :: cs ∧ isBlank c = false ∧ isQuote c = false := by
  obtain ⟨c, cs, hn⟩ := List.exists_cons_of_ne_nil n.digits.nonempty
  have hc := n.digits.digit c (by simp [hn])
  cases hneg : n.negative with
  | true => exact ⟨'-', n.digits.text, by simp [Whole.literal, hneg], rfl, rfl⟩
  | false =>
    exact ⟨c, cs, by simp [Whole.literal, hneg, hn], isBlank_of_isAsciiDigit hc,
      isQuote_of_isAsciiDigit hc⟩

theorem integer?_literal (n : Whole) (hrest : ∀ c ∈ rest.head?, isWordDigit c = false) :
    integer? (n.literal ++ rest) = some (n.literal, rest) := by
  have hrun := run?_digits n.digits hrest
  cases hneg : n.negative with
  | true => simp [Whole.literal, hneg, integer?, hrun]
  | false =>
    obtain ⟨c, cs, hn⟩ := List.exists_cons_of_ne_nil n.digits.nonempty
    have hne : c ≠ '-' := by
      rintro rfl
      have := n.digits.digit '-' (by simp [hn])
      cases this
    have hread : integer? (n.digits.text ++ rest) = run? isWordDigit (n.digits.text ++ rest) := by
      rw [hn, List.cons_append, integer?]
      simpa using hne
    simpa [Whole.literal, hneg, hread] using hrun

/-- An integer is read with the quotes around it, if there are any. -/
theorem integer?_whole (n : Whole) (hgap : Blanks gap) (hgap' : Blanks gap') (rest : List Char) :
    ((integer? (dropQuote (trimStart (gap ++ (n.text ++ (gap' ++ ')' :: rest)))))).bind
      fun (digits, cs) => (dropMark? ')' (dropQuote cs)).map fun rest => (digits, rest)) =
      some (n.literal, rest) := by
  obtain ⟨c, cs, hn, hblank, hquote⟩ := exists_cons_of_whole n
  have hmark : dropMark? ')' (gap' ++ ')' :: rest) = some rest :=
    dropMark?_blanks_append hgap' rfl
  cases hq : n.quote with
  | none =>
    have hread := integer?_literal n (isWordDigit_of_mem_head? hgap' (.inr rfl) rest)
    have hdrop : dropQuote (gap' ++ ')' :: rest) = gap' ++ ')' :: rest := by
      cases gap' with
      | nil => rfl
      | cons b gap' =>
        have hb : isQuote b = false := isQuote_of_not_isStop (isStop_of_isBlank (hgap' b (.head _)))
        simp [dropQuote, hb]
    have hfront : dropQuote (trimStart (gap ++ (n.text ++ (gap' ++ ')' :: rest)))) =
        n.literal ++ (gap' ++ ')' :: rest) := by
      rw [trimStart_blanks_append hgap]
      simp [Whole.text, hq, hn, trimStart_cons hblank, dropQuote, hquote]
    simp [hfront, hread, hdrop, hmark]
  | some q =>
    have hquote : isQuote q = true := n.isQuote q hq
    have hdigit : ∀ c ∈ (q :: (gap' ++ ')' :: rest)).head?, isWordDigit c = false := by
      simpa using isWordDigit_of_isQuote hquote
    have hread := integer?_literal n hdigit
    have hfront : dropQuote (trimStart (gap ++ (n.text ++ (gap' ++ ')' :: rest)))) =
        n.literal ++ q :: (gap' ++ ')' :: rest) := by
      rw [trimStart_blanks_append hgap]
      simp [Whole.text, hq, trimStart_cons (isBlank_of_isQuote hquote), dropQuote, hquote]
    have hdrop : dropQuote (q :: (gap' ++ ')' :: rest)) = gap' ++ ')' :: rest := by
      simp [dropQuote, hquote]
    simp [hfront, hread, hdrop, hmark]

theorem ne_backslash_of_isAsciiDigit (h : isAsciiDigit c = true) : c ≠ '\\' := by
  rintro rfl
  cases h

/-- A number holds nothing that ends a payload, no blank and no backslash. -/
theorem plain_of_decimal (n : Decimal) :
    ∀ c ∈ n.literal, isStop c = false ∧ isBlank c = false ∧ c ≠ '\\' := by
  obtain ⟨v, hread⟩ := n.read
  obtain ⟨signed, taken, hliteral, hsigned, htaken⟩ := number_eq_ok hread
  have hplain : ∀ c, isNumberChar c = true →
      isStop c = false ∧ isBlank c = false ∧ c ≠ '\\' := by
    intro c hc
    simp only [isNumberChar, Bool.or_eq_true, decide_eq_true_eq] at hc
    rcases hc with ((((hc | rfl) | rfl) | rfl) | rfl) | rfl
    · exact ⟨isStop_of_isAsciiDigit hc, isBlank_of_isAsciiDigit hc, ne_backslash_of_isAsciiDigit hc⟩
    all_goals decide
  intro c hc
  rw [hliteral, List.append_nil] at hc
  rcases List.mem_append.1 hc with hc | hc
  · rcases hsigned with rfl | rfl | rfl
    · cases hc
    · rw [List.mem_singleton.1 hc]; decide
    · rw [List.mem_singleton.1 hc]; decide
  · rcases htaken with rfl | hall
    · exact (by decide : ∀ c ∈ "Infinity".toList,
        isStop c = false ∧ isBlank c = false ∧ c ≠ '\\') c hc
    · exact hplain c (hall c hc)

/-- Where a text is quoted that begins with no closing parenthesis, none follows its first quote. -/
theorem dropMark?_content {q : Char} {content : List Char} (hq : isQuote q = true)
    (h : (trimStart content).head? ≠ some ')') (rest : List Char) :
    dropMark? ')' (content ++ q :: rest) = none := by
  obtain ⟨gap, hgap, hcontent⟩ := eq_blanks_append_trimStart content
  cases htrim : trimStart content with
  | nil =>
    rw [htrim, List.append_nil] at hcontent
    rw [hcontent]
    exact dropMark?_blanks_append_of_ne hgap (isBlank_of_isQuote hq) (ne_of_isQuote hq)
  | cons c tail =>
    have hc : isBlank c = false := by
      have hhead := List.head?_dropWhile_not isBlank content
      rw [show content.dropWhile isBlank = c :: tail from htrim] at hhead
      simpa using hhead
    rw [hcontent, htrim, List.append_assoc, List.cons_append]
    exact dropMark?_blanks_append_of_ne hgap hc (by simpa [htrim] using h)

/-- What ends no payload begins with no closing parenthesis. -/
theorem head?_of_not_isStop {cs : List Char} (h : ∀ c ∈ cs, isStop c = false) :
    (trimStart cs).head? ≠ some ')' := by
  intro hclose
  have hmem : ')' ∈ cs := (List.dropWhile_sublist isBlank).subset (List.mem_of_mem_head? hclose)
  cases h _ hmem

/-- A loose payload goes on to the first quote, if it is closed there. -/
theorem loosePayload?_append {q : Char} {cs : List Char} (hne : cs ≠ [])
    (hcs : ∀ c ∈ cs, isStop c = false) (hq : isQuote q = true)
    (hgap : Blanks gap) (rest : List Char) :
    loosePayload? (cs ++ q :: (gap ++ ')' :: rest)) = some (cs, rest) := by
  induction cs with
  | nil => contradiction
  | cons c cs ih =>
    have hc : (isQuote c || decide (c = ')')) = false := hcs c (.head _)
    cases cs with
    | nil =>
      have hmark : dropMark? ')' (gap ++ ')' :: rest) = some rest :=
        dropMark?_blanks_append hgap rfl
      simp [loosePayload?, hc, dropQuote, hq, hmark]
    | cons d cs =>
      have hd : isQuote d = false := isQuote_of_not_isStop (hcs d (by simp))
      have htail := ih (by simp) fun e he => hcs e (.tail _ he)
      have hmark := dropMark?_content hq (head?_of_not_isStop fun e he => hcs e (.tail _ he))
        (gap ++ ')' :: rest)
      have hdrop : dropQuote (d :: (cs ++ q :: (gap ++ ')' :: rest))) =
          d :: (cs ++ q :: (gap ++ ')' :: rest)) := by
        simp [dropQuote, hd]
      rw [List.cons_append] at hmark
      rw [List.cons_append, loosePayload?, hc, List.cons_append, hdrop, hmark, ← List.cons_append,
        htail]
      rfl

/-- Blanks before a loose payload do not belong to it. -/
theorem loose?_blanks_append {taken cs : List Char} (hgap : Blanks gap)
    (h : loose? cs = some (taken, rest)) : loose? (gap ++ cs) = some (taken, rest) := by
  induction gap with
  | nil => exact h
  | cons b gap ih =>
    have hb := hgap b (.head _)
    have hlater := ih fun c hc => hgap c (.tail _ hc)
    simp [loose?, hb, hlater]

/-- A loose payload between two quotes. -/
theorem loose?_between {q q' : Char} {content : List Char} (hgap : Blanks gap)
    (hq : isQuote q = true) (hq' : isQuote q' = true) (hne : content ≠ [])
    (hcontent : ∀ c ∈ content, isStop c = false) (hgap' : Blanks gap') (rest : List Char) :
    loose? (gap ++ q :: (content ++ q' :: (gap' ++ ')' :: rest))) = some (content, rest) := by
  refine loose?_blanks_append hgap ?_
  simpa [loose?, isBlank_of_isQuote hq, hq] using loosePayload?_append hne hcontent hq' hgap' rest

theorem loose?_decimal (n : Decimal) (hgap : Blanks gap) (hgap' : Blanks gap') (rest : List Char) :
    loose? (gap ++ (n.text ++ (gap' ++ ')' :: rest))) = some (n.literal, rest) := by
  have hne : n.literal ≠ [] := by
    intro hnil
    obtain ⟨v, hread⟩ := n.read
    rw [hnil] at hread
    cases hread
  simpa [Decimal.text] using loose?_between hgap n.isQuote n.isQuote hne
    (fun c hc => (plain_of_decimal n c hc).1) hgap' rest

/-! ## Arguments -/

/-- The rule of a wrapper reads what stands between the parentheses of its call. -/
theorem arguments?_inner (x : Shell.Call) (hgap : Blanks gap) (hgap' : Blanks gap') (rest : List Char) :
    x.wrapper.arguments? (gap ++ (x.inner ++ (gap' ++ ')' :: rest))) = some (x.literal, rest) := by
  -- the closing parenthesis is found behind the blanks in front of it
  have hmark : dropMark? ')' (gap' ++ ')' :: rest) = some rest :=
    dropMark?_blanks_append hgap' rfl
  cases x with
  | objectId x | uuid x =>
    simp [Call.wrapper, Call.inner, Call.literal, arguments?, payload?_quoted hgap, hmark]
  | isoDate x valid =>
    simp [Call.wrapper, Call.inner, Call.literal, Call.dateOf, arguments?, payload?_quoted hgap,
      hmark]
  | newObjectId =>
    have hmark' : dropMark? ')' (gap ++ (gap' ++ ')' :: rest)) = some rest := by
      simpa [dropMark?, trimStart_blanks_append hgap] using hmark
    simp [Call.wrapper, Call.inner, Call.literal, arguments?, hmark']
  | isoNow =>
    have hmark' : dropMark? ')' (gap ++ (gap' ++ ')' :: rest)) = some rest := by
      simpa [dropMark?, trimStart_blanks_append hgap] using hmark
    simp [Call.wrapper, Call.inner, Call.literal, Call.dateOf, arguments?, hmark']
  | numberLong n | numberInt n =>
    have hread := integer?_whole n hgap hgap' rest
    obtain ⟨⟨digits, cs⟩, hinteger, hdrop⟩ := Option.bind_eq_some_iff.1 hread
    obtain ⟨rest', hrest, heq⟩ := Option.map_eq_some_iff.1 hdrop
    cases heq
    simp [Call.wrapper, Call.inner, Call.literal, arguments?, hinteger, hrest]
  | numberDecimal n => exact loose?_decimal n hgap hgap' rest
  | binData kind left right x =>
    have hrun := fun rest => run?_digits kind (isWordDigit_of_mem_head? left.blank (.inl rfl) rest)
    have hcomma : ∀ rest, dropMark? ',' (left.text ++ ',' :: rest) = some rest :=
      fun rest => dropMark?_blanks_append left.blank rfl
    simp [Call.wrapper, Call.inner, Call.literal, arguments?, trimStart_digits kind hgap, hrun,
      hcomma, payload?_quoted right.blank, hmark]
  | timestamp seconds left right increment =>
    have hrun := fun rest =>
      run?_digits seconds (isWordDigit_of_mem_head? left.blank (.inl rfl) rest)
    have hcomma : ∀ rest, dropMark? ',' (left.text ++ ',' :: rest) = some rest :=
      fun rest => dropMark?_blanks_append left.blank rfl
    have hrun' := run?_digits increment (isWordDigit_of_mem_head? hgap' (.inr rfl) rest)
    simp [Call.wrapper, Call.inner, Call.literal, Call.timestampOf, arguments?,
      trimStart_digits seconds hgap, hrun, hcomma, trimStart_digits increment right.blank, hrun',
      hmark]

/-- Two wrappers of one name take different arguments: a payload, or none. -/
theorem arguments?_inner_of_ne (x : Shell.Call) (hne : w ≠ x.wrapper)
    (hname : w.constructorName = x.wrapper.constructorName) (hgap : Blanks gap)
    (hgap' : Blanks gap') (rest : List Char) :
    w.arguments? (gap ++ (x.inner ++ (gap' ++ ')' :: rest))) = none := by
  have hquoted : ∀ x : Quoted, dropMark? ')' (gap ++ (x.text ++ (gap' ++ ')' :: rest))) = none := by
    intro x
    exact dropMark?_blanks_append_of_ne hgap (isBlank_of_isQuote x.isQuote) (ne_of_isQuote x.isQuote)
  have hempty : payload? (gap ++ (gap' ++ ')' :: rest)) = none := by
    simp [payload?, trimStart_blanks_append hgap, trimStart_blanks_append hgap',
      trimStart_cons (c := ')') rfl, isQuote]
  cases x <;> cases w <;> simp [Call.wrapper, constructorName] at hne hname
  · simp [Call.inner, arguments?, hquoted]
  · simp [Call.inner, arguments?, hempty]
  · simp [Call.inner, arguments?, hquoted]
  · simp [Call.inner, arguments?, hempty]

/-! ## The match at a call -/

theorem front_site (s : Site) : Front s.front := by
  rw [Site.front]
  cases hnew : s.construct with
  | none => exact .nil
  | some gap => exact .new gap.blank (s.construct_ne_nil gap hnew)

theorem site_append (s : Site) (rest : List Char) :
    s.text ++ rest = s.front ++ (s.call.wrapper.constructorName ++ (s.beforeOpening.text ++
      '(' :: (s.afterOpening.text ++ (s.call.inner ++ (s.beforeClosing.text ++ ')' :: rest))))) := by
  simp [Site.text, Site.arguments]

/-- At a call, its wrapper is the only one whose rule matches, with `new` and from the name on. -/
theorem match?_front {before : Option Char} {front : List Char} (s : Site)
    (hbefore : before.any isWord = false) (hfront : Front front) (rest : List Char) :
    w.match? before (front ++ (s.call.wrapper.constructorName ++ (s.beforeOpening.text ++
      '(' :: (s.afterOpening.text ++ (s.call.inner ++ (s.beforeClosing.text ++ ')' :: rest)))))) =
      if w = s.call.wrapper then some (s.call.literal, rest) else none := by
  rw [match?_call w s.call.wrapper hbefore hfront s.beforeOpening.blank]
  by_cases hw : w = s.call.wrapper
  · subst hw
    simpa using arguments?_inner s.call s.afterOpening.blank s.beforeClosing.blank rest
  · rw [if_neg hw]
    split
    · rename_i hname
      exact arguments?_inner_of_ne s.call hw hname s.afterOpening.blank s.beforeClosing.blank rest
    · rfl

theorem match?_site {before : Option Char} (s : Site) (hbefore : before.any isWord = false)
    (rest : List Char) : w.match? before (s.text ++ rest) =
      if w = s.call.wrapper then some (s.call.literal, rest) else none := by
  rw [site_append]
  exact match?_front s hbefore (front_site s) rest

/-! ## Matches that begin before a call -/

/-- A date text begins with no closing parenthesis: its first character is a digit or a sign. -/
theorem head?_of_parseMillis {cs : List Char} (h : (Date.parseMillis cs).isSome = true) :
    (trimStart cs).head? ≠ some ')' := by
  intro hclose
  obtain ⟨tail, htail⟩ := List.head?_eq_some_iff.1 hclose
  obtain ⟨tail', htrim⟩ := List.head?_eq_some_iff.1 (head?_trimEnd_cons (c := ')') rfl tail)
  have hinternet : Date.internet? (')' :: tail') = none := by
    simp [Date.internet?, Date.digitsExactly, isAsciiDigit]
  have hlocal : Date.local? (')' :: tail') = none := by
    have hyear : Date.yearField (')' :: tail') = none := by
      simp [Date.yearField, trimStart, isBlank, Date.digitsUpTo, isAsciiDigit]
    simp [Date.local?, Date.dateFields, hyear]
  simp [Date.parseMillis, trim, htail, htrim, hinternet, hlocal] at h

/-- A call that takes a text has it between quotes, with nothing before it that ends a payload. -/
theorem exists_quoted (x : Shell.Call) (h : x.wrapper.takesText = true)
    (hopen : ∀ payload ∈ x.payload?, (trimStart payload).head? ≠ some ')') :
    ∃ front q content, x.inner = front ++ q :: (content ++ [q]) ∧
      (∀ c ∈ front, isStop c = false) ∧ isQuote q = true ∧ (trimStart content).head? ≠ some ')' := by
  cases x with
  | objectId x | uuid x =>
    exact ⟨[], x.quote, x.content, rfl, by simp, x.isQuote, hopen _ rfl⟩
  | isoDate x valid =>
    exact ⟨[], x.quote, x.content, rfl, by simp, x.isQuote, head?_of_parseMillis valid⟩
  | numberDecimal n =>
    exact ⟨[], n.quote, n.literal, rfl, by simp, n.isQuote,
      head?_of_not_isStop fun c hc => (plain_of_decimal n c hc).1⟩
  | binData kind left right x =>
    refine ⟨kind.text ++ left.text ++ ',' :: right.text, x.quote, x.content, ?_, ?_, x.isQuote,
      hopen _ rfl⟩
    · simp [Call.inner, Quoted.text]
    · intro c hc
      simp only [List.mem_append, List.mem_cons] at hc
      rcases hc with (hc | hc) | rfl | hc
      · exact isStop_of_isAsciiDigit (kind.digit c hc)
      · exact isStop_of_isBlank (left.blank c hc)
      · rfl
      · exact isStop_of_isBlank (right.blank c hc)
  | newObjectId | isoNow | numberLong | numberInt | timestamp => cases h

theorem lettered_site (s : Site) (rest : List Char) : Lettered (s.text ++ rest) := by
  rw [site_append]
  cases hfront : s.front with
  | nil =>
    obtain ⟨c, name, hname⟩ := List.exists_cons_of_ne_nil (constructorName_ne_nil s.call.wrapper)
    refine ⟨c, by simp [hname], isAsciiLetter_of_mem_constructorName s.call.wrapper c ?_⟩
    simp [hname]
  | cons c front =>
    have hn := front_site s
    rw [hfront] at hn
    cases hn
    exact ⟨'n', rfl, rfl⟩

/-- No match of its wrapper reaches into a call whose payload closes none. -/
theorem shielded_site (s : Site) (h : ¬ (Leaf.call s).Closes s.call.wrapper) (rest : List Char) :
    Shielded s.call.wrapper (s.text ++ rest) := by
  refine ⟨lettered_site s rest, fun htext => ?_⟩
  have hopen : ∀ payload ∈ s.call.payload?, (trimStart payload).head? ≠ some ')' :=
    fun payload hpayload hclose => h ⟨rfl, payload, hpayload, hclose⟩
  obtain ⟨front, q, content, hinner, hfront, hq, hcontent⟩ := exists_quoted s.call htext hopen
  refine ⟨s.front ++ (s.call.wrapper.constructorName ++ (s.beforeOpening.text ++
    '(' :: (s.afterOpening.text ++ front))), q, content ++ q :: (s.beforeClosing.text ++ ')' :: rest),
    ?_, ?_, hq, dropMark?_content hq hcontent _⟩
  · simp [site_append, hinner]
  · intro c hc
    have hopening : c ∈ s.front ++ (s.call.wrapper.constructorName ++ s.beforeOpening.text) ∨
        c = '(' ∨ c ∈ s.afterOpening.text ∨ c ∈ front := by
      simpa [or_assoc] using hc
    rcases hopening with hc | rfl | hc | hc
    · exact isStop_of_letter_or_blank
        (letter_or_blank_of_mem (front_site s) s.beforeOpening.blank c hc)
    · rfl
    · exact isStop_of_isBlank (s.afterOpening.blank c hc)
    · exact hfront c hc

end ShellQuery.Wrapper
