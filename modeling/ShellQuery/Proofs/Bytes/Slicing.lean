/-
  ShellQuery.Proofs.Bytes.Slicing

  None of the programs over the bytes of a text slices it off the boundaries of its characters, where
  it would give nothing, and what they read is what the readers read that go along the characters:
  `slices_on_boundaries`. A program keeps to the boundaries because it moves over ASCII only, or to a
  delimiter that the scan of the literals has found.
-/
import ShellQuery.Proofs.Bytes.Scan
import ShellQuery.Proofs.Chain
import ShellQuery.Proofs.Opening

namespace ShellQuery.Bytes

open Text

variable {now : Int64} {text front middle back gap cs rest : List Char} {c d : Char} {fuel i j : ℕ}

/-! ## Steps on boundaries -/

theorem byteLength_snoc (hc : ¬IsWide c) (front : List Char) :
    byteLength (front ++ [c]) = byteLength front + 1 := by
  obtain ⟨-, -, -, hsize⟩ := exists_utf8_of_ascii hc []
  rw [byteLength_append, byteLength_cons, hsize]
  rfl

theorem suffix?_of_eq (h : text = front ++ back) : suffix? text (byteLength front) = some back :=
  h ▸ suffix?_append front back

theorem slice?_of_eq (h : text = front ++ middle ++ back) :
    slice? text (byteLength front) (byteLength (front ++ middle)) = some middle := by
  rw [h, List.append_assoc]
  exact slice?_append front middle back

theorem stepBack?_snoc (hc : ¬IsWide c) (h : text = front ++ [c] ++ back) :
    (stepBack? (byteLength (front ++ [c]))).bind (suffix? text) = some (c :: back) := by
  rw [byteLength_snoc hc, stepBack?, Option.bind_some]
  exact suffix?_of_eq (by rw [h, List.append_assoc, List.singleton_append])

theorem skipWhile_of_eq {p : Char → Bool} (hp : Ascii p) (h : text = front ++ cs) :
    skipWhile p (utf8 text) (byteLength front) = byteLength (front ++ cs.takeWhile p) := by
  rw [h, skipWhile_eq hp (drop_utf8 front cs), byteLength_append]

theorem eq_append_split (p : Char → Bool) (h : text = front ++ cs) :
    text = front ++ cs.takeWhile p ++ cs.dropWhile p := by
  rw [List.append_assoc, List.takeWhile_append_dropWhile, h]

theorem hasAt_iff (hd : ¬IsWide d) (h : text = front ++ cs) :
    HasAt (utf8 text) d (byteLength front) ↔ cs.head? = some d := by
  have hdrop : (utf8 text).drop (byteLength front) = utf8 cs := h ▸ drop_utf8 front cs
  cases cs with
  | nil =>
    refine iff_of_false ?_ (by simp)
    rintro ⟨hi, -⟩
    exact absurd (List.drop_eq_nil_iff.1 hdrop) (Nat.not_le_of_lt hi)
  | cons c cs =>
    rw [List.head?_cons, Option.some.injEq]
    by_cases hc : IsWide c
    · obtain ⟨bs, hne, hwide, hbytes, -⟩ := exists_utf8_of_wide hc cs
      obtain ⟨b, bs, rfl⟩ := List.exists_cons_of_ne_nil hne
      obtain ⟨hi, hb, -⟩ := exists_getElem_of_drop (hdrop.trans hbytes)
      -- no byte of a wide character is a mark
      refine iff_of_false ?_ fun heq => hd (heq ▸ hc)
      rintro ⟨_, heq⟩
      rw [hb] at heq
      exact hd (heq ▸ hwide b (.head _))
    · obtain ⟨b, rfl, hbytes, -⟩ := exists_utf8_of_ascii hc cs
      obtain ⟨hi, hb, -⟩ := exists_getElem_of_drop (hdrop.trans hbytes)
      constructor
      · rintro ⟨_, rfl⟩
        rw [hb]
      · rintro rfl
        exact ⟨hi, congrArg toChar hb⟩

theorem lt_length_of_eq (h : text = front ++ c :: cs) : byteLength front < (utf8 text).length := by
  rw [h, length_utf8, byteLength_append]
  exact Nat.lt_add_of_pos_right (byteLength_cons_pos c cs)

theorem byteLength_append_eq_iff (front middle : List Char) :
    byteLength (front ++ middle) = byteLength front ↔ middle = [] := by
  rw [byteLength_append, Nat.add_eq_left]
  cases middle with
  | nil => exact iff_of_true rfl rfl
  | cons c middle =>
    exact iff_of_false (Nat.ne_of_gt (byteLength_cons_pos c middle)) (List.cons_ne_nil c middle)

/-- Where the text after the parenthesis is cut, the slices are what it is cut into. -/
theorem slices_of_close? {cut : Closed} (hclose : close? rest = some cut)
    (h : text = front ++ '(' :: rest) :
    slice? text (byteLength front + 1) (byteLength (front ++ '(' :: cut.inside)) = some cut.inside ∧
      suffix? text (byteLength (front ++ '(' :: cut.inside) + 1) = some cut.after ∧
      byteLength (front ++ '(' :: cut.inside) + 1 =
        byteLength (front ++ '(' :: cut.inside ++ [cut.closer]) := by
  have hrest := eq_of_closeFrom? hclose
  have hcloser := ascii_isCloser _ (isCloser_of_closeFrom? hclose)
  have hlength := byteLength_snoc hcloser (front ++ '(' :: cut.inside)
  refine ⟨?_, ?_, hlength.symm⟩
  · have htext : text = front ++ ['('] ++ cut.inside ++ cut.closer :: cut.after := by
      rw [h, hrest]
      simp
    have hslice := slice?_of_eq htext
    rwa [byteLength_snoc (by decide), ← List.append_cons] at hslice
  · rw [← hlength]
    refine suffix?_of_eq ?_
    rw [h, hrest]
    simp

/-! ## The primary call -/

theorem ofHead?_eq {head : Call.Head} (h : text = front ++ '(' :: head.rest) :
    ofHead? text head = some (Call.ofHead text head) := by
  have hlength : text.length = front.length + 1 + head.rest.length := by
    rw [h, List.length_append, List.length_cons]
    omega
  have hmatched : text.take (text.length - head.rest.length) = front ++ ['('] := by
    rw [hlength, Nat.add_sub_cancel, h, List.append_cons]
    exact List.take_left' (by simp)
  have hfront : text.take (text.length - head.rest.length - 1) = front := by
    rw [hlength, Nat.add_sub_cancel, Nat.add_sub_cancel, h]
    exact List.take_left
  have hclosing := findClosing_eq front head.rest
  rw [← h] at hclosing
  simp only [ofHead?, Call.ofHead, hmatched, hfront, byteLength_snoc (c := '(') (by decide), stepBack?,
    bind, Option.bind, hclosing]
  cases hclose : close? head.rest with
  | none => rfl
  | some cut =>
    obtain ⟨hinside, hafter, -⟩ := slices_of_close? hclose h
    simp only [Option.map_some, hinside, hafter]

theorem tokenize?_eq (query : List Char) : tokenize? query = some (Call.ofQuery query) := by
  simp only [tokenize?, Call.ofQuery]
  split
  · rfl
  cases hhead : Call.head? (cleanQuery query) with
  | none => rfl
  | some head =>
    obtain ⟨front, -, htext⟩ := Call.head?_eq_some_iff.1 hhead
    dsimp only
    split
    · rfl
    · exact ofHead?_eq htext

/-! ## Chained calls -/

theorem take_sub_length (h : text = front ++ back) :
    text.take (text.length - back.length) = front := by
  rw [h, List.length_append, Nat.add_sub_cancel]
  exact List.take_left

theorem drop_sub_length (h : text = front ++ c :: back) :
    text.drop (text.length - back.length - 1) = c :: back := by
  rw [h, List.length_append, List.length_cons, Nat.sub_sub, Nat.add_sub_cancel]
  exact List.drop_left

section Enclosed

variable {inner : List Char} {cut : Closed}

/-- Behind a method the blanks are skipped, and there must be a parenthesis then. -/
theorem enclosed?_of_not_open (method : List Char) (h : text = front ++ cs)
    (hparen : (skipAsciiBlanks cs).head? ≠ some '(') :
    enclosed? text method (byteLength front) =
      some (.error (.malformed (.notCalled (.ofList method)))) := by
  have hgap : text = front ++ cs.takeWhile isAsciiBlank ++ skipAsciiBlanks cs :=
    eq_append_split isAsciiBlank h
  simp only [enclosed?, skipWhile_of_eq ascii_isAsciiBlank h]
  rw [if_pos (by rwa [hasAt_iff (by decide) hgap])]

theorem enclosed?_of_open (method : List Char) (h : text = front ++ cs)
    (hparen : skipAsciiBlanks cs = '(' :: inner) :
    ∃ front', text = front' ++ '(' :: inner ∧ enclosed? text method (byteLength front) =
      match findClosing (utf8 text) (byteLength front') with
      | none => some (.error (.unbalanced (byteLength front')))
      | some closeAt => (slice? text (byteLength front' + 1) closeAt).bind fun inside =>
        some (.ok (inside, closeAt + 1)) := by
  have hgap : text = front ++ cs.takeWhile isAsciiBlank ++ '(' :: inner :=
    hparen ▸ eq_append_split isAsciiBlank h
  refine ⟨_, hgap, ?_⟩
  simp only [enclosed?, skipWhile_of_eq ascii_isAsciiBlank h]
  rw [if_neg (by rw [hasAt_iff (by decide) hgap]; simp)]
  rfl

theorem enclosed?_of_unclosed (method : List Char) (h : text = front ++ cs)
    (hparen : skipAsciiBlanks cs = '(' :: inner) (hclose : close? inner = none) :
    enclosed? text method (byteLength front) =
      some (.error (.unbalanced (byteLength (text.take (text.length - ('(' :: inner).length))))) := by
  obtain ⟨front', h', henclosed⟩ := enclosed?_of_open method h hparen
  have hclosing := findClosing_eq front' inner
  rw [← h', hclose] at hclosing
  rw [henclosed, hclosing, take_sub_length h']
  rfl

theorem enclosed?_of_closed (method : List Char) (h : text = front ++ cs)
    (hparen : skipAsciiBlanks cs = '(' :: inner) (hclose : close? inner = some cut) :
    ∃ front', text = front' ++ cut.after ∧
      enclosed? text method (byteLength front) = some (.ok (cut.inside, byteLength front')) := by
  obtain ⟨front', h', henclosed⟩ := enclosed?_of_open method h hparen
  have hclosing := findClosing_eq front' inner
  rw [← h', hclose] at hclosing
  obtain ⟨hinside, -, hlength⟩ := slices_of_close? hclose h'
  refine ⟨front' ++ '(' :: cut.inside ++ [cut.closer], ?_, ?_⟩
  · rw [h', eq_of_closeFrom? hclose]
    simp
  · rw [henclosed, hclosing, Option.map_some, ← hlength]
    simp only [hinside, Option.bind_some]

end Enclosed

/-- A dot and the blanks after it end with a character of ASCII. -/
theorem exists_snoc_of_dot (gap : List Char) (hgap : ∀ c ∈ gap, isAsciiBlank c = true) :
    ∃ init e, '.' :: gap = init ++ [e] ∧ ¬IsWide e := by
  rcases List.eq_nil_or_concat' gap with rfl | ⟨init, e, rfl⟩
  · exact ⟨[], '.', rfl, by decide⟩
  · exact ⟨'.' :: init, e, rfl, ascii_isAsciiBlank e (hgap e (by simp))⟩

/-- The character in front of a missing name is shown with what follows. -/
theorem shown_of_unnamed (h : text = front ++ '.' :: rest) :
    (stepBack? (byteLength (front ++ ['.'] ++ rest.takeWhile isAsciiBlank))).bind (suffix? text) =
      some (text.drop (text.length - (skipAsciiBlanks rest).length - 1)) := by
  obtain ⟨init, e, hinit, he⟩ :=
    exists_snoc_of_dot (rest.takeWhile isAsciiBlank) fun _ => List.mem_takeWhile_imp
  have hfront : front ++ ['.'] ++ rest.takeWhile isAsciiBlank = front ++ init ++ [e] := by
    simp [hinit]
  have htext : text = front ++ init ++ [e] ++ skipAsciiBlanks rest := by
    rw [← hfront]
    exact eq_append_split isAsciiBlank (by rw [h, List.append_cons])
  have hlast : text = front ++ init ++ e :: skipAsciiBlanks rest := by
    rw [htext, List.append_assoc, List.singleton_append]
  rw [hfront, stepBack?_snoc he htext, drop_sub_length hlast]

/-- Behind a dot the program reads a name, what is enclosed after it, and the calls that follow. -/
theorem callsAt?_of_dot (h : text = front ++ '.' :: rest) (hend : ¬Chain.isEnd ('.' :: rest) = true)
    {named method nameFront : List Char} (hnamed : skipAsciiBlanks rest = named)
    (hmethod : named.takeWhile isStepChar = method)
    (hfront : front ++ ['.'] ++ rest.takeWhile isAsciiBlank = nameFront) :
    callsAt? now text (byteLength front) =
      if method = [] then
        ((stepBack? (byteLength nameFront)).bind (suffix? text)).bind fun shown =>
          some (.error (Chain.unexpected shown))
      else match enclosed? text method (byteLength (nameFront ++ method)) with
        | none => none
        | some (.error e) => some (.error e)
        | some (.ok (inside, callEnd)) =>
          match parseShellArguments now inside with
          | .error e => some (.error e)
          | .ok arguments =>
            (callsAt? now text (skipWhile isAsciiBlank (utf8 text) callEnd)).bind fun calls =>
              some (calls.map (⟨.ofList method, arguments⟩ :: ·)) := by
  have hdot : text = front ++ ['.'] ++ rest := by rw [h, List.append_cons]
  have hsplit : text = nameFront ++ named := by
    rw [← hfront, ← hnamed]
    exact eq_append_split isAsciiBlank hdot
  have hname : text = nameFront ++ method ++ named.dropWhile isStepChar :=
    hmethod ▸ eq_append_split isStepChar hsplit
  rw [callsAt?, dif_pos (lt_length_of_eq h), suffix?_of_eq h, Option.bind_eq_bind, Option.bind_some,
    if_neg hend, if_neg (by rw [hasAt_iff (by decide) h]; simp)]
  dsimp only
  rw [← byteLength_snoc (c := '.') (by decide), skipWhile_of_eq ascii_isAsciiBlank hdot, hfront,
    skipWhile_of_eq ascii_isStepChar hsplit, hmethod]
  simp only [byteLength_append_eq_iff, slice?_of_eq hname, Option.bind_eq_bind, Option.bind_some]
  -- the program keeps the equation for what is enclosed, by which it terminates
  congr 1
  rcases enclosed? text method (byteLength (nameFront ++ method)) with _ | _ | _ <;> rfl

/-- What is left behind a call is shorter than the text from its method on. -/
theorem length_after_lt {unnamed inner : List Char} {cut : Closed}
    (hunnamed : (skipAsciiBlanks rest).dropWhile isStepChar = unnamed)
    (hparen : skipAsciiBlanks unnamed = '(' :: inner) (hclose : close? inner = some cut) :
    (skipAsciiBlanks cut.after).length < rest.length := by
  have hcut := congrArg List.length (eq_of_closeFrom? hclose)
  rw [List.length_append, List.length_cons] at hcut
  calc (skipAsciiBlanks cut.after).length
      ≤ cut.after.length := List.length_dropWhile_le ..
    _ < ('(' :: inner).length := by rw [List.length_cons]; omega
    _ ≤ unnamed.length := hparen ▸ List.length_dropWhile_le ..
    _ ≤ (skipAsciiBlanks rest).length := hunnamed ▸ List.length_dropWhile_le ..
    _ ≤ rest.length := List.length_dropWhile_le ..

theorem callsAt?_eq (hfuel : cs.length < fuel) (h : text = front ++ cs) :
    callsAt? now text (byteLength front) = some (Chain.callsFrom now text fuel cs) := by
  induction fuel generalizing front cs with
  | zero => cases hfuel
  | succ fuel ih =>
    cases cs with
    | nil =>
      rw [callsAt?, dif_neg (by rw [h, List.append_nil, length_utf8]; exact Nat.lt_irrefl _)]
      rfl
    | cons c rest =>
      rw [Chain.callsFrom]
      by_cases hend : Chain.isEnd (c :: rest) = true
      · rw [callsAt?, dif_pos (lt_length_of_eq h), suffix?_of_eq h, Option.bind_eq_bind,
          Option.bind_some, if_pos hend, if_pos hend]
      rw [if_neg hend]
      dsimp only
      by_cases hdot : c = '.'
      swap
      · rw [callsAt?, dif_pos (lt_length_of_eq h), suffix?_of_eq h, Option.bind_eq_bind,
          Option.bind_some, if_neg hend, if_pos (by rw [hasAt_iff (by decide) h]; simpa using hdot),
          if_pos hdot]
      subst hdot
      rw [if_neg (not_not_intro rfl), callsAt?_of_dot h hend rfl rfl rfl]
      by_cases hempty : (skipAsciiBlanks rest).takeWhile isStepChar = []
      · rw [if_pos hempty, if_pos hempty, shown_of_unnamed h, Option.bind_some]
      rw [if_neg hempty, if_neg hempty]
      have hname := eq_append_split isStepChar
        (eq_append_split isAsciiBlank (h.trans (List.append_cons front '.' rest)))
      rw [← skipAsciiBlanks] at hname
      -- from here on only the places of the name and of what follows it count
      generalize (skipAsciiBlanks rest).takeWhile isStepChar = method at hname ⊢
      generalize hunnamed : (skipAsciiBlanks rest).dropWhile isStepChar = unnamed at hname ⊢
      cases hafter : skipAsciiBlanks unnamed with
      | nil => rw [enclosed?_of_not_open method hname (by simp [hafter])]
      | cons d inner =>
        by_cases hparen : d = '('
        swap
        · rw [enclosed?_of_not_open method hname (by simpa [hafter] using hparen)]
          simp only [hparen, ne_eq, not_false_eq_true, if_true]
        subst hparen
        simp only [ne_eq, not_true_eq_false, if_false]
        cases hclose : close? inner with
        | none => rw [enclosed?_of_unclosed method hname hafter hclose]
        | some cut =>
          obtain ⟨front', hcut, henclosed⟩ := enclosed?_of_closed method hname hafter hclose
          rw [henclosed]
          dsimp only
          cases hread : parseShellArguments now cut.inside with
          | error e => rfl
          | ok arguments =>
            have hless := length_after_lt hunnamed hafter hclose
            have hmore := ih (hless.trans (Nat.lt_of_succ_lt_succ hfuel))
              (eq_append_split isAsciiBlank hcut)
            simp only [skipWhile_of_eq ascii_isAsciiBlank hcut, hmore, bind, Option.bind]
            cases Chain.callsFrom now text fuel (skipAsciiBlanks cut.after) <;> rfl

theorem scanChain?_eq (now : Int64) (text : List Char) :
    scanChain? now text = some (Chain.calls now text) := by
  have hless : (skipAsciiBlanks text).length < text.length + 1 :=
    Nat.lt_succ_of_le (List.length_dropWhile_le _ _)
  have hstart := skipWhile_of_eq ascii_isAsciiBlank (List.nil_append text).symm
  have hsplit := eq_append_split isAsciiBlank (List.nil_append text).symm
  rw [scanChain?, Chain.calls, ← callsAt?_eq hless hsplit]
  exact congrArg (callsAt? now text) hstart

/-! ## Paths -/

theorem stepsAt?_eq (hfuel : cs.length < fuel) (h : text = front ++ cs) :
    stepsAt? text (byteLength front) = some (Path.stepsFrom fuel cs) := by
  -- on the fuel that both have; each step takes one character at least
  induction fuel generalizing front cs with
  | zero => cases hfuel
  | succ fuel ih =>
    cases cs with
    | nil =>
      rw [stepsAt?, dif_neg (by rw [h, List.append_nil, length_utf8]; exact Nat.lt_irrefl _)]
      rfl
    | cons c rest =>
      rw [stepsAt?, dif_pos (lt_length_of_eq h), suffix?_of_eq h, Option.bind_eq_bind,
        Option.bind_some, Path.stepsFrom]
      by_cases hend : Chain.isEnd (c :: rest) = true
      · rw [if_pos hend, if_pos hend]
      rw [if_neg hend, if_neg hend]
      dsimp only
      have hlength : ∀ p, (rest.dropWhile p).length < fuel := fun p =>
        (List.length_dropWhile_le p rest).trans_lt (Nat.lt_of_succ_lt_succ hfuel)
      have h₁ : text = front ++ [c] ++ rest := by simp [h]
      -- a field: its name is a slice between two boundaries
      by_cases hdot : c = '.'
      · subst hdot
        have h₂ := eq_append_split isStepChar h₁
        rw [if_pos ((hasAt_iff (by decide) h).2 rfl), if_pos rfl,
          ← byteLength_snoc (c := '.') (by decide), skipWhile_of_eq ascii_isStepChar h₁]
        simp only [byteLength_append_eq_iff]
        split
        · rw [stepBack?_snoc (by decide) h₁]
          rfl
        · rw [slice?_of_eq h₂, Option.bind_some, ih (hlength isStepChar) h₂]
          cases Path.stepsFrom fuel (rest.dropWhile isStepChar) <;> rfl
      rw [if_neg (by rw [hasAt_iff (by decide) h]; simpa using hdot), if_neg hdot]
      -- an index: its digits, and the bracket behind them
      by_cases hbracket : c = '['
      · subst hbracket
        have h₂ := eq_append_split isAsciiDigit h₁
        rw [if_pos ((hasAt_iff (by decide) h).2 rfl), if_pos rfl,
          ← byteLength_snoc (c := '[') (by decide), skipWhile_of_eq ascii_isAsciiDigit h₁]
        simp only [byteLength_append_eq_iff, hasAt_iff (d := ']') (by decide) h₂, Bool.or_eq_true,
          decide_eq_true_eq, ne_eq]
        split
        · rw [stepBack?_snoc (by decide) h₁]
          rfl
        · rename_i hindex
          rw [not_or, not_not] at hindex
          obtain ⟨after, hafter⟩ := List.head?_eq_some_iff.1 hindex.2
          have hmore := hlength isAsciiDigit
          rw [slice?_of_eq h₂, Option.bind_some]
          rw [hafter] at h₂ hmore ⊢
          split
          · rfl
          · have h₃ : text = front ++ ['['] ++ rest.takeWhile isAsciiDigit ++ [']'] ++ after := by
              rw [h₂, List.append_cons]
            rw [← byteLength_snoc (c := ']') (by decide), ih (Nat.lt_of_succ_lt hmore) h₃,
              List.tail_cons]
            cases Path.stepsFrom fuel after <;> rfl
      · rw [if_neg (by rw [hasAt_iff (by decide) h]; simpa using hbracket), if_neg hbracket]

theorem parsePath?_eq (text : List Char) : parsePath? text = some (Path.parse text) := by
  have hless : (skipAsciiBlanks text).length < text.length + 1 :=
    Nat.lt_succ_of_le (List.length_dropWhile_le _ _)
  have hstart := skipWhile_of_eq ascii_isAsciiBlank (List.nil_append text).symm
  have hsplit := eq_append_split isAsciiBlank (List.nil_append text).symm
  rw [parsePath?, Path.parse, ← stepsAt?_eq hless hsplit]
  exact congrArg (stepsAt? text) hstart

/-! ## All slices -/

/-- The programs give what the readers give, and so no slice of theirs leaves the text or parts a
    character. The literals are parts of the text that are not empty and that do not overlap, one
    after the other, and behind an opening delimiter the search ends at a later one. -/
theorem slices_on_boundaries (now : Int64) (text : List Char) :
    tokenize? text = some (Call.ofQuery text) ∧
      scanChain? now text = some (Chain.calls now text) ∧
      parsePath? text = some (Path.parse text) ∧
      (∀ s ∈ literalSpans (utf8 text),
        s.start < s.stop ∧ Boundary text s.start ∧ Boundary text s.stop) ∧
      (literalSpans (utf8 text)).Pairwise (fun s s' => s.stop ≤ s'.start) ∧
      ∀ openAt closeAt (hopen : openAt < (utf8 text).length),
        isOpener (toChar (utf8 text)[openAt]) = true → findClosing (utf8 text) openAt = some closeAt →
          openAt < closeAt ∧ Boundary text closeAt ∧ Boundary text (closeAt + 1) := by
  rw [literalSpans_eq]
  refine ⟨tokenize?_eq text, scanChain?_eq now text, parsePath?_eq text, fun s hs => ?_,
    pairwise_spansFrom none 0 text, fun openAt closeAt hopen => lt_of_findClosing hopen⟩
  exact boundary_of_mem_spansFrom (List.nil_append text).symm rfl hs

/-- A call with an escaped character of two bytes in front of a delimiter that is quoted. -/
def escapedCall : List Char :=
  "db.c.find('\\é)')".toList

theorem slices_on_boundaries_escaped :
    ∃ h : 9 < (utf8 escapedCall).length, isOpener (toChar (utf8 escapedCall)[9]) = true ∧
      findClosing (utf8 escapedCall) 9 = some 16 ∧ 9 < 16 ∧
      Boundary escapedCall 16 ∧ Boundary escapedCall 17 := by
  obtain ⟨hopen, hopener⟩ : ∃ h : 9 < (utf8 escapedCall).length,
      isOpener (toChar (utf8 escapedCall)[9]) = true := by
    decide +kernel
  have hclose : findClosing (utf8 escapedCall) 9 = some 16 := by
    refine (findClosing_eq "db.c.find".toList "'\\é)')".toList).trans ?_
    decide +kernel
  obtain ⟨-, -, -, -, -, hfound⟩ := slices_on_boundaries 0 escapedCall
  exact ⟨hopen, hopener, hclose, hfound 9 16 hopen hopener hclose⟩

end ShellQuery.Bytes
