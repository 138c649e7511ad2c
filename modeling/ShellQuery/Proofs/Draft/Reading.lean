/-
  ShellQuery.Proofs.Draft.Reading

  What the reader makes of a draft in which some calls are replaced. It need not take the text, but
  if it does, every leaf has been one scalar: a call that is left makes it refuse the text, and it
  never takes more than the leaf. It may take less of a payload without quotes, and then something
  is left over that separates no values, so the text is refused where a separator is wanted.
-/
import ShellQuery.Proofs.Draft.Normalization
import ShellQuery.Proofs.Grammar.Scalar
import ShellQuery.Proofs.Shell.Refusal

namespace ShellQuery.Draft

open Text Argument
open Shell (Gap)

variable {now : Int64} {depth : Nat} {c m : Char} {k v : Value}
  {cs front before after body back rest leftover : List Char}

/-! ## Scalars -/

theorem skeleton_integerValue (negative : Bool) (amount : Nat) :
    (Grammar.integerValue negative amount).skeleton = .null := by
  simp only [Grammar.integerValue]
  split
  · rfl
  split <;> rfl

theorem skeleton_of_scalar (h : Grammar.Scalar now cs v) : v.skeleton = .null := by
  cases h with
  | string => rfl
  | regex h =>
    cases h
    rfl
  | number h =>
    cases h with
    | integer => exact skeleton_integerValue _ _
    | double => rfl
    | infinity => rfl
  | keyword h =>
    simp only [Grammar.keywords, List.mem_cons, Prod.mk.injEq, List.not_mem_nil, or_false] at h
    rcases h with ⟨-, rfl⟩ | ⟨-, rfl⟩ | ⟨-, rfl⟩ | ⟨-, rfl⟩ | ⟨-, rfl⟩ | ⟨-, rfl⟩ <;> rfl
  | date h =>
    cases h
    rfl

/-- A value that is read without going into a bracket is a scalar. -/
theorem skeleton_of_value (h : value now 1 cs = .ok (v, rest)) : v.skeleton = .null := by
  obtain ⟨hbrace, hbracket⟩ := head?_of_value h
  obtain ⟨taken, -, hscalar⟩ := Grammar.Scalar.of_read hbrace hbracket h
  exact skeleton_of_scalar hscalar

/-- What a number is made of, an infinity included. -/
theorem isNumberChar_or_letter_of_number (h : Grammar.NumberLiteral cs v) :
    ∀ c ∈ cs, (isNumberChar c || isAsciiLetter c) = true := by
  obtain ⟨signed, taken, hcs, hsigned, htaken⟩ := number_eq_ok h.read
  rw [List.append_nil] at hcs
  intro c hc
  rw [hcs] at hc
  rcases List.mem_append.1 hc with hc | hc
  · rcases hsigned with rfl | rfl | rfl
    · cases hc
    · rw [List.mem_singleton.1 hc]; rfl
    · rw [List.mem_singleton.1 hc]; rfl
  · rcases htaken with rfl | hall
    · exact (by decide : ∀ c ∈ "Infinity".toList, (isNumberChar c || isAsciiLetter c) = true) c hc
    · simp [hall c hc]

theorem isAsciiLetter_of_keyword {word : String} (h : (word, v) ∈ Grammar.keywords) :
    ∀ c ∈ word.toList, isAsciiLetter c = true :=
  (by decide : ∀ entry ∈ Grammar.keywords, ∀ c ∈ entry.1.toList, isAsciiLetter c = true) _ h

/-! ## Leaves -/

/-- What may follow a value: no character that a value might go on with, and no parenthesis before
    something else than letters and blanks. -/
structure Follows (rest : List Char) : Prop where
  stops : Stops rest
  uncalled : Wrapper.Uncalled rest

theorem Follows.nil : Follows [] :=
  ⟨.nil, .nil⟩

theorem Follows.blanks (hafter : Blanks after) (h : Follows rest) : Follows (after ++ rest) := by
  refine ⟨h.stops.append hafter, h.uncalled.append fun c hc => ?_⟩
  exact ne_of_isBlank (hafter c hc) rfl

/-- The characters after a value in a list. -/
def isSeparator (c : Char) : Bool :=
  c = ',' || c = ']' || c = '}'

theorem isBlank_of_isSeparator (h : isSeparator c = true) : isBlank c = false := by
  simp only [isSeparator, Bool.or_eq_true, decide_eq_true_eq] at h
  rcases h with (rfl | rfl) | rfl <;> rfl

theorem isSeparator_of_isBlank (h : isBlank c = true) : isSeparator c = false := by
  cases hc : isSeparator c with
  | false => rfl
  | true => simp [isBlank_of_isSeparator hc] at h

theorem Follows.separator (hm : isSeparator m = true) (rest : List Char) : Follows (m :: rest) := by
  simp only [isSeparator, Bool.or_eq_true, decide_eq_true_eq] at hm
  refine ⟨stops_mark ?_ rest, .of_head ?_ ?_⟩ <;> rcases hm with (rfl | rfl) | rfl <;> decide

/-- A text of which the reader makes a value of the given skeleton, if it makes one, and goes on no
    further. -/
structure Fills (k : Value) (cs : List Char) : Prop where
  first : ∃ c ∈ (trimStart cs).head?, isFirst c = true
  read : ∀ {now depth rest v leftover}, Follows rest →
    value now depth (trimStart (cs ++ rest)) = .ok (v, leftover) →
      v.skeleton = k ∧ ∃ tail, leftover = tail ++ rest ∧ ∀ c ∈ tail, isSeparator c = false

/-- Where a text is not blank, what follows it is not trimmed. -/
theorem trimStart_append_of_first (h : ∃ c ∈ (trimStart cs).head?, isFirst c = true)
    (rest : List Char) : trimStart (cs ++ rest) = trimStart cs ++ rest := by
  refine trimStart_append_rest fun hnil => ?_
  obtain ⟨c, hc, -⟩ := h
  simp [hnil] at hc

/-- What is read at the least depth fills the place of a value with a scalar. -/
theorem Fills.of_read (h : ∀ now, ∃ v, value now 1 cs = .ok (v, [])) : Fills .null cs := by
  obtain ⟨v₀, hread₀⟩ := h 0
  obtain ⟨c, tail, rfl, hc⟩ := isFirst_of_value hread₀
  have hfirst : ∀ tail, trimStart (c :: tail) = c :: tail :=
    fun tail => (trimStart_first .nil hc tail).1
  refine ⟨⟨c, by simp [hfirst], hc⟩, ?_⟩
  intro now depth rest v leftover hrest hvalue
  rw [List.cons_append, hfirst, ← List.cons_append] at hvalue
  obtain ⟨v₁, hread⟩ := h now
  cases depth with
  | zero => simp [value] at hvalue
  | succ depth =>
    -- more depth and more text change nothing about a scalar
    rw [value_append hrest.stops hread] at hvalue
    cases hvalue
    exact ⟨skeleton_of_value hread, [], rfl, by simp⟩

/-- A call that is left makes the reader refuse the text. -/
theorem Fills.of_site (s : Site) : Fills .null s.text := by
  have hletter : ∃ c tail, s.text = c :: tail ∧ isAsciiLetter c = true := by
    have hletters := Wrapper.isAsciiLetter_of_mem_constructorName s.call.wrapper
    obtain ⟨c, name, hname⟩ :=
      List.exists_cons_of_ne_nil (Wrapper.constructorName_ne_nil s.call.wrapper)
    cases hnew : s.construct with
    | none =>
      have hc : isAsciiLetter c = true := hletters c (by simp [hname])
      exact ⟨c, _, by simp [Site.text, Site.front, hnew, hname]; rfl, hc⟩
    | some gap => exact ⟨'n', _, by simp [Site.text, Site.front, hnew]; rfl, rfl⟩
  obtain ⟨c, tail, htext, hc⟩ := hletter
  have hfirst : ∀ tail, trimStart (c :: tail) = c :: tail :=
    fun tail => trimStart_cons (isBlank_of_isAsciiLetter hc) tail
  refine ⟨⟨c, by simp [htext, hfirst], ?_⟩, ?_⟩
  · refine isFirst_of_class (p := isAsciiLetter) (fun d hd => ?_) (by decide) hc
    exact Wrapper.isAsciiLetter_of_isBlank hd
  · intro now depth rest v leftover hrest hvalue
    have htrim : trimStart (s.text ++ rest) = s.text ++ rest := by
      rw [htext, List.cons_append, hfirst]
    rw [htrim, site_append] at hvalue
    exact absurd hvalue (value_call s.call.wrapper (front_site s) s.beforeOpening.blank _ _)

/-- A date construction takes the string between its parentheses whole. -/
theorem rest_of_dateArgument {content : List Char} {millis : Int64}
    (hcontent : ∀ c ∈ content, Wrapper.isQuote c = false ∧ c ≠ '\\')
    (h : dateArgument now (Wrapper.quote content ++ rest) = .ok (millis, leftover)) :
    leftover = rest := by
  have hstring := string_append (string_quote hcontent) rest
  have hquote : ('"' : Char) ≠ ')' := by decide
  simp only [Wrapper.quote, List.cons_append, List.nil_append, dateArgument, if_neg hquote]
    at h hstring
  -- whether the text is a date is another matter: the string is read before it is looked at
  obtain ⟨⟨text, rest'⟩, hread, hmillis⟩ := bind_eq_ok.1 h
  rw [hstring] at hread
  cases hread
  simp only at hmillis
  split at hmillis
  · cases hmillis
    rfl
  · cases hmillis

/-- A date construction with any payload. -/
theorem Fills.of_date {content : List Char}
    (h : ∀ c ∈ content, Wrapper.isQuote c = false ∧ c ≠ '\\') :
    Fills .null (Shell.Call.dateOf (Wrapper.quote content)) := by
  refine ⟨⟨'n', rfl, by decide⟩, ?_⟩
  intro now depth rest v leftover hrest hvalue
  have htrim : trimStart (Shell.Call.dateOf (Wrapper.quote content) ++ rest) =
      ['n', 'e', 'w', ' ', 'D', 'a', 't', 'e', '('] ++
        (Wrapper.quote content ++ ')' :: rest) := by
    simp [Shell.Call.dateOf, trimStart, isBlank]
  rw [htrim] at hvalue
  cases depth with
  | zero => simp [value] at hvalue
  | succ depth =>
    rw [value_newDate] at hvalue
    obtain ⟨⟨u, cs₁⟩, hopen, h₁⟩ := bind_eq_ok.1 hvalue
    obtain ⟨⟨millis, cs₂⟩, hargument, h₂⟩ := bind_eq_ok.1 h₁
    obtain ⟨⟨u', cs₃⟩, hclose, h₃⟩ := bind_eq_ok.1 h₂
    cases h₃
    obtain rfl : Wrapper.quote content ++ ')' :: rest = cs₁ := (List.cons.inj (expect_eq_ok hopen)).2
    have hquote : trimStart (Wrapper.quote content ++ ')' :: rest) =
        Wrapper.quote content ++ ')' :: rest := trimStart_cons rfl _
    rw [hquote] at hargument
    obtain rfl := rest_of_dateArgument h hargument
    obtain ⟨-, rfl⟩ := List.cons.inj (expect_eq_ok hclose)
    exact ⟨rfl, [], rfl, by simp⟩

/-- A text of one class that a longer text begins with ends before the first character of another
    class. -/
theorem exists_tail {p : Char → Bool} {taken : List Char} (h : cs ++ rest = taken ++ leftover)
    (htaken : ∀ c ∈ taken, p c = true) (hrest : ∀ c ∈ rest.head?, p c = false) :
    ∃ tail, cs = taken ++ tail ∧ leftover = tail ++ rest := by
  rcases List.append_eq_append_iff.1 h with ⟨as, rfl, has⟩ | ⟨tail, hcs, hleftover⟩
  · cases as with
    | nil => exact ⟨[], by simp, by simpa using has.symm⟩
    | cons c as =>
      have hc := htaken c (by simp)
      simp [hrest c (by simp [has])] at hc
  · exact ⟨tail, hcs, hleftover⟩

/-- What the reader takes of a text without quotes and brackets, in the place of a value, is a
    number or a word in it. -/
theorem exists_tail_of_scalar {taken : List Char} (hcs : ∀ c ∈ cs, isInert c = true) (hne : cs ≠ [])
    (hrest : Follows rest) (h : cs ++ rest = taken ++ leftover)
    (hscalar : Grammar.Scalar now taken v) :
    ∃ tail, cs = taken ++ tail ∧ leftover = tail ++ rest := by
  obtain ⟨c, cs, rfl⟩ := List.exists_cons_of_ne_nil hne
  have hhead : ∀ {d tail}, taken = d :: tail → isInert d = true := by
    rintro d tail rfl
    obtain ⟨rfl, -⟩ := List.cons.inj h
    exact hcs _ (.head _)
  cases hscalar with
  -- strings and regular expressions begin with marks that are not in the text
  | string hstring =>
    obtain ⟨q, tail, htaken, hq, -⟩ := hstring.read []
    have hinert := hhead htaken
    rcases hq with rfl | rfl <;> cases hinert
  | regex hregex =>
    obtain ⟨tail, htaken⟩ := List.head?_eq_some_iff.1 hregex.read.1
    cases hhead htaken
  | number hnumber =>
    refine exists_tail h (isNumberChar_or_letter_of_number hnumber) fun c hc => ?_
    simp [hrest.stops.isNumberChar c hc, hrest.stops.isAsciiLetter c hc]
  | keyword hkeyword =>
    exact exists_tail h (isAsciiLetter_of_keyword hkeyword) hrest.stops.isAsciiLetter
  | date hdate =>
    -- its parenthesis would be the first that follows
    have huncalled : Wrapper.Uncalled (c :: cs ++ rest) := hrest.uncalled.append fun d hd => by
      rintro rfl
      cases hcs _ hd
    cases hdate with
    | @call word front left argument right millis hword hfront hleft hargument hright =>
      have hcall : c :: cs ++ rest = (word ++ front) ++ '(' :: (left ++ (argument ++
          (right ++ ')' :: leftover))) := by
        simpa using h
      obtain ⟨d, hd, hclass⟩ := huncalled _ _ hcall
      rcases List.mem_append.1 hd with hd | hd
      · cases hword with
        | call =>
          have hletter := (by decide : ∀ d ∈ "Date".toList, isAsciiLetter d = true) d hd
          simp [hletter] at hclass
        | @construct gap hgap hne =>
          rcases List.mem_append.1 hd with hd | hd
          · have hletter := (by decide : ∀ d ∈ "new".toList, isAsciiLetter d = true) d hd
            simp [hletter] at hclass
          rcases List.mem_append.1 hd with hd | hd
          · simp [hgap d hd] at hclass
          · have hletter := (by decide : ∀ d ∈ "Date".toList, isAsciiLetter d = true) d hd
            simp [hletter] at hclass
      · simp [hfront d hd] at hclass

/-- A payload without its quotes. -/
theorem Fills.of_bare (h : Bare cs) : Fills .null cs := by
  obtain ⟨gap, hgap, hcs⟩ := eq_blanks_append_trimStart cs
  have hmem : ∀ c ∈ trimStart cs, isInert c = true ∧ c ≠ ',' := fun c hc =>
    h.plain c ((List.dropWhile_sublist isBlank).subset hc)
  have hseparator : ∀ c ∈ trimStart cs, isSeparator c = false := by
    intro c hc
    obtain ⟨hinert, hcomma⟩ := hmem c hc
    have hne : ∀ d, isInert d = false → c ≠ d := by
      rintro d hd rfl
      simp [hinert] at hd
    simp [isSeparator, hcomma, hne ']' rfl, hne '}' rfl]
  obtain ⟨c, tail, htrim⟩ : ∃ c tail, trimStart cs = c :: tail := by
    refine List.exists_cons_of_ne_nil fun hnil => ?_
    obtain ⟨c, hc, hblank⟩ := h.not_blank
    rw [hcs, hnil, List.append_nil] at hc
    simp [hgap c hc] at hblank
  have hblank : isBlank c = false := by
    have hhead := List.head?_dropWhile_not isBlank cs
    rw [show cs.dropWhile isBlank = c :: tail from htrim] at hhead
    simpa using hhead
  have hfirst : isFirst c = true := by
    have hc := hseparator c (by simp [htrim])
    simp only [isSeparator, Bool.or_eq_false_iff, decide_eq_false_iff_not] at hc
    simp [isFirst, hblank, hc]
  have hexists : ∃ c ∈ (trimStart cs).head?, isFirst c = true := ⟨c, by simp [htrim], hfirst⟩
  refine ⟨hexists, ?_⟩
  intro now depth rest v leftover hrest hvalue
  rw [trimStart_append_of_first hexists] at hvalue
  have hbrace : ∀ d, isInert d = false → (trimStart cs ++ rest).head? ≠ some d := by
    intro d hd hhead
    obtain rfl : c = d := by simpa [htrim] using hhead
    simp [(hmem c (by simp [htrim])).1] at hd
  -- no bracket comes first, so what is taken is a scalar, and it ends within the payload
  obtain ⟨taken, htaken, hscalar⟩ := Grammar.Scalar.of_read (hbrace '{' rfl) (hbrace '[' rfl) hvalue
  obtain ⟨left, hleft, rfl⟩ := exists_tail_of_scalar (fun c hc => (hmem c hc).1)
    (by simp [htrim]) hrest htaken hscalar
  refine ⟨skeleton_of_scalar hscalar, left, rfl, fun d hd => hseparator d ?_⟩
  rw [hleft]
  exact List.mem_append_right _ hd

theorem Replacement.fills (h : Replacement cs) : Fills .null cs := by
  cases h with
  | string h => exact .of_read fun now => ⟨_, value_quote h⟩
  | date h => exact .of_date h
  | now =>
    have hclosing : ∀ c ∈ ([] ++ [')']).head?, isBlank c = false := by simp [isBlank]
    exact .of_read fun now => ⟨_, value_dateOf hclosing rfl⟩
  | bare h => exact .of_bare h

/-! ## A value and what separates it from the next -/

/-- After a value that has been read comes the separator that was written. -/
theorem Fills.separated (h : Fills k cs) (hafter : Blanks after) (hm : isSeparator m = true)
    (hvalue : value now depth (trimStart (cs ++ (after ++ m :: rest))) =
      .ok (v, back ++ c :: leftover))
    (hback : Blanks back) (hc : isSeparator c = true) :
    v.skeleton = k ∧ c = m ∧ leftover = rest := by
  obtain ⟨hv, tail, hleftover, htail⟩ := h.read ((Follows.separator hm rest).blanks hafter) hvalue
  rw [← List.append_assoc] at hleftover
  have hplain : ∀ d ∈ tail ++ after, isSeparator d = false := fun d hd =>
    (List.mem_append.1 hd).elim (htail d) fun hd => isSeparator_of_isBlank (hafter d hd)
  -- both are the first separator of what is left
  obtain ⟨-, hcm, hrest⟩ := Wrapper.cut_unique hleftover
    (fun d hd => isSeparator_of_isBlank (hback d hd)) hc hplain hm
  exact ⟨hv, hcm, hrest⟩

/-- What is read after blanks begins where they end. -/
theorem eq_trimStart {w : Value} (hbefore : Blanks before) (hfront : Blanks front)
    (hvalue : value now depth body = .ok (w, leftover)) (h : before ++ cs = front ++ body) :
    body = trimStart cs := by
  obtain ⟨c, tail, rfl, hc⟩ := isFirst_of_value hvalue
  have htrim := congrArg trimStart h
  rw [trimStart_blanks_append hbefore, (trimStart_first hfront hc tail).1] at htrim
  exact htrim.symm

/-- What fills the place of a value is no closing bracket. -/
theorem Fills.ne_close (h : Fills k cs) (hbefore : Blanks before) (hfront : Blanks front)
    (hm : isSeparator m = true) : before ++ (cs ++ rest) ≠ front ++ m :: leftover := by
  intro heq
  have htrim := congrArg trimStart heq
  rw [trimStart_blanks_append hbefore, trimStart_append_of_first h.first,
    trimStart_mark hfront (isBlank_of_isSeparator hm)] at htrim
  obtain ⟨c, hc, hfirst⟩ := h.first
  obtain ⟨tail, hcs⟩ := List.head?_eq_some_iff.1 (Option.mem_def.1 hc)
  rw [hcs] at htrim
  obtain ⟨rfl, -⟩ := List.cons.inj htrim
  simp only [isSeparator, Bool.or_eq_true, decide_eq_true_eq] at hm
  rcases hm with (rfl | rfl) | rfl <;> cases hfirst

/-- An item is read, and the separator after it. -/
theorem Fills.item {read : List Value} (h : Fills k cs) (hbefore : Blanks before)
    (hafter : Blanks after) (hm : isSeparator m = true)
    (hread : items now (depth + 1) read (before ++ (cs ++ (after ++ m :: rest))) =
      .ok (v, leftover)) :
    ∃ w, w.skeleton = k ∧ (m = ',' ∧ items now depth (read ++ [w]) rest = .ok (v, leftover) ∨
      m = ']' ∧ leftover = rest ∧ v = .array (read ++ [w])) := by
  rcases items_eq_ok hread with ⟨front, hfront, hcs, -⟩ |
    ⟨front, body, w, back, c, after', hfront, hcs, hvalue, hback, hnext⟩
  -- the array does not end here
  · exact absurd hcs (h.ne_close hbefore hfront rfl)
  · rw [eq_trimStart hbefore hfront hvalue hcs] at hvalue
    have hc : isSeparator c = true := by
      rcases hnext with ⟨rfl, -⟩ | ⟨rfl, -⟩ <;> rfl
    obtain ⟨hw, rfl, rfl⟩ := h.separated hafter hm hvalue hback hc
    refine ⟨w, hw, hnext.imp_right fun ⟨hclose, hrest, hv⟩ => ⟨hclose, hrest.symm, hv⟩⟩

/-- A field is read, and the separator after it. -/
theorem Fills.field {read : Document} (h : Fills k cs) (key : Shell.Key) (left right : Gap)
    (hbefore : Blanks before) (hafter : Blanks after) (hm : isSeparator m = true)
    (hread : fields now (depth + 1) read (before ++ (key.text ++ (left.text ++ ':' ::
      (right.text ++ (cs ++ (after ++ m :: rest)))))) = .ok (v, leftover)) :
    ∃ w, w.skeleton = k ∧
      (m = ',' ∧ fields now depth (read.insert (nameOf key) w) rest = .ok (v, leftover) ∨
        m = '}' ∧ leftover = rest ∧ v = .document (read.insert (nameOf key) w)) := by
  obtain ⟨d, tail, hkey, hd⟩ := isFirst_of_key (key_eq_nameOf key)
  rcases fields_eq_ok hread with ⟨front, hfront, hcs, -⟩ |
    ⟨front, text, name, left', right', body, w, back, c, after', hfront, hcs, hname, hleft', hright',
      hvalue, hback, hnext⟩
  · -- the key begins with no closing brace
    have htrim := congrArg trimStart hcs
    rw [hkey, List.cons_append, (trimStart_first hbefore hd _).1,
      trimStart_mark hfront (c := '}') rfl] at htrim
    obtain ⟨rfl, -⟩ := List.cons.inj htrim
    cases hd
  · -- the key that is read is the one that was written
    obtain ⟨e, tail', htext, he⟩ := isFirst_of_key hname
    have htrim := congrArg trimStart hcs
    rw [htext, (trimStart_first hfront he tail').1, ← htext, hkey, List.cons_append,
      (trimStart_first hbefore hd _).1, ← List.cons_append, ← hkey] at htrim
    have hstops : Stops (left.text ++ ':' :: (right.text ++ (cs ++ (after ++ m :: rest)))) :=
      (stops_mark (by decide) _).append left.blank
    rw [← htrim, key_append hstops (key_eq_nameOf key), List.nil_append] at hname
    simp only [Except.ok.injEq, Prod.mk.injEq] at hname
    obtain ⟨rfl, hcolon⟩ := hname
    obtain ⟨-, -, hbody⟩ := Wrapper.cut_unique (p := fun c => !isBlank c) hcolon
      (fun c hc => by simp [left.blank c hc]) rfl (fun c hc => by simp [hleft' c hc]) rfl
    rw [eq_trimStart right.blank hright' hvalue hbody] at hvalue
    have hc : isSeparator c = true := by
      rcases hnext with ⟨rfl, -⟩ | ⟨rfl, -⟩ <;> rfl
    obtain ⟨hw, rfl, rfl⟩ := h.separated hafter hm hvalue hback hc
    refine ⟨w, hw, hnext.imp_right fun ⟨hclose, hrest, hv⟩ => ⟨hclose, hrest.symm, hv⟩⟩

/-- Blanks and a closing bracket have no item in them. -/
theorem items_of_blanks {read : List Value} (hgap : Blanks before)
    (h : items now depth read (before ++ ']' :: rest) = .ok (v, leftover)) :
    v = .array read ∧ leftover = rest := by
  cases depth with
  | zero => simp [items] at h
  | succ depth =>
    rw [items_end hgap] at h
    cases h
    exact ⟨rfl, rfl⟩

theorem fields_of_blanks {read : Document} (hgap : Blanks before)
    (h : fields now depth read (before ++ '}' :: rest) = .ok (v, leftover)) :
    v = .document read ∧ leftover = rest := by
  cases depth with
  | zero => simp [fields] at h
  | succ depth =>
    rw [fields_end hgap] at h
    cases h
    exact ⟨rfl, rfl⟩

/-! ## Trees -/

mutual

/-- A value of a draft. -/
theorem fills_tree (gap : Gap) (v : Tree) (hv : ∀ leaf ∈ v.leaves gap, leaf.Sound)
    {cs : List Char} (hcs : v.Written cs) : Fills v.skeleton cs := by
  match v with
  | .scalar s =>
    -- a scalar is written in one way
    obtain rfl : cs = s.text := hcs
    exact .of_read s.read
  | .call s =>
    -- a call is left as it is or replaced by its literal: its skeleton is the same
    have hs : s.call.Sound := hv (.call s) (by simp [Tree.leaves])
    rcases hcs with rfl | hliteral
    · exact .of_site s
    · exact (replacement_of_literal? hs hliteral).fills
  | .array items =>
    obtain ⟨inside, hinside, rfl⟩ := hcs
    refine ⟨⟨'[', by simp [trimStart_cons (c := '[') rfl], by decide⟩, ?_⟩
    intro now depth rest v leftover hrest hvalue
    rw [List.cons_append, trimStart_cons rfl] at hvalue
    cases depth with
    | zero => simp [value] at hvalue
    | succ depth =>
      have hitems : Argument.items now depth [] (inside ++ ']' :: rest) = .ok (v, leftover) := by
        simpa [value] using hvalue
      -- the items are values of the draft again, one level down
      obtain ⟨vs, rfl, hvs, rfl⟩ := skeletons_of_items items (by simpa [Tree.leaves] using hv) hinside
        depth [] hitems
      exact ⟨by simp [Value.skeleton, Tree.skeleton, hvs], [], rfl, by simp⟩
  | .object fields =>
    obtain ⟨inside, hinside, rfl⟩ := hcs
    refine ⟨⟨'{', by simp [trimStart_cons (c := '{') rfl], by decide⟩, ?_⟩
    intro now depth rest v leftover hrest hvalue
    rw [List.cons_append, trimStart_cons rfl] at hvalue
    cases depth with
    | zero => simp [value] at hvalue
    | succ depth =>
      have hfields : Argument.fields now depth [] (inside ++ '}' :: rest) = .ok (v, leftover) := by
        simpa [value] using hvalue
      obtain ⟨d, rfl, hd, rfl⟩ := skeleton_of_fields fields (by simpa [Tree.leaves] using hv) hinside
        depth [] hfields
      exact ⟨by simp [Value.skeleton, Tree.skeleton, hd, Value.fieldSkeletons], [], rfl, by simp⟩

/-- The items of an array of a draft. -/
theorem skeletons_of_items (items : Items) (hitems : ∀ leaf ∈ items.leaves, leaf.Sound)
    {cs rest leftover : List Char} (hcs : items.Written cs) {now : Int64} (depth : Nat)
    (read : List Value) {v : Value}
    (h : Argument.items now depth read (cs ++ ']' :: rest) = .ok (v, leftover)) :
    ∃ vs, v = .array (read ++ vs) ∧ Value.skeletons vs = items.skeletons ∧ leftover = rest := by
  -- the separator that was written tells whether more items follow
  match items with
  | .none gap =>
    obtain rfl : cs = gap.text := hcs
    obtain ⟨rfl, rfl⟩ := items_of_blanks gap.blank h
    exact ⟨[], by simp, rfl, rfl⟩
  | .last before v after =>
    obtain ⟨body, hbody, rfl⟩ := hcs
    cases depth with
    | zero => simp [Argument.items] at h
    | succ depth =>
      simp only [List.append_assoc] at h
      obtain ⟨w, hw, ⟨hcomma, -⟩ | ⟨-, rfl, rfl⟩⟩ :=
        (fills_tree before v hitems hbody).item before.blank after.blank rfl h
      · cases hcomma
      · exact ⟨[w], rfl, by simp [Value.skeletons, Items.skeletons, hw], rfl⟩
  | .more before v after items =>
    obtain ⟨body, tail, hbody, htail, rfl⟩ := hcs
    simp only [Items.leaves, List.mem_append, or_imp, forall_and] at hitems
    cases depth with
    | zero => simp [Argument.items] at h
    | succ depth =>
      simp only [List.append_assoc, List.cons_append] at h
      obtain ⟨w, hw, ⟨-, hmore⟩ | ⟨hclose, -⟩⟩ :=
        (fills_tree before v hitems.1 hbody).item before.blank after.blank rfl h
      · obtain ⟨vs, rfl, hvs, rfl⟩ := skeletons_of_items items hitems.2 htail depth _ hmore
        exact ⟨w :: vs, by simp, by simp [Value.skeletons, Items.skeletons, hw, hvs], rfl⟩
      · cases hclose

/-- The fields of an object of a draft. -/
theorem skeleton_of_fields (fields : Fields) (hfields : ∀ leaf ∈ fields.leaves, leaf.Sound)
    {cs rest leftover : List Char} (hcs : fields.Written cs) {now : Int64} (depth : Nat)
    (read : Document) {v : Value}
    (h : Argument.fields now depth read (cs ++ '}' :: rest) = .ok (v, leftover)) :
    ∃ d, v = .document d ∧
      Value.fieldSkeletons d = fields.skeleton (Value.fieldSkeletons read) ∧ leftover = rest := by
  -- as with items, and a key that stands twice keeps the last of its skeletons
  match fields with
  | .none gap =>
    obtain rfl : cs = gap.text := hcs
    obtain ⟨rfl, rfl⟩ := fields_of_blanks gap.blank h
    exact ⟨read, rfl, rfl, rfl⟩
  | .last before k left right v after =>
    obtain ⟨body, hbody, rfl⟩ := hcs
    cases depth with
    | zero => simp [Argument.fields] at h
    | succ depth =>
      simp only [List.append_assoc, List.cons_append] at h
      obtain ⟨w, hw, ⟨hcomma, -⟩ | ⟨-, rfl, rfl⟩⟩ :=
        (fills_tree right v hfields hbody).field k left right before.blank after.blank rfl h
      · cases hcomma
      · exact ⟨_, rfl, by simp [Value.fieldSkeletons_insert, Fields.skeleton, hw], rfl⟩
  | .more before k left right v after fields =>
    obtain ⟨body, tail, hbody, htail, rfl⟩ := hcs
    simp only [Fields.leaves, List.mem_append, or_imp, forall_and] at hfields
    cases depth with
    | zero => simp [Argument.fields] at h
    | succ depth =>
      simp only [List.append_assoc, List.cons_append] at h
      obtain ⟨w, hw, ⟨-, hmore⟩ | ⟨hclose, -⟩⟩ :=
        (fills_tree right v hfields.1 hbody).field k left right before.blank after.blank rfl h
      · obtain ⟨d, rfl, hd, rfl⟩ := skeleton_of_fields fields hfields.2 htail depth _ hmore
        refine ⟨d, rfl, ?_, rfl⟩
        rw [hd, Value.fieldSkeletons_insert, hw, Fields.skeleton]
      · cases hclose

end

/-! ## Lists -/

theorem Fills.not_blanks (h : Fills k cs) : ¬ Blanks (before ++ (cs ++ rest)) := by
  intro hblanks
  obtain ⟨c, hc, hfirst⟩ := h.first
  have hmem : c ∈ cs := (List.dropWhile_sublist isBlank).subset (List.mem_of_mem_head? hc)
  simp [isFirst, hblanks c (by simp [hmem])] at hfirst

/-- The last value of a list is read. -/
theorem Fills.last {steps : Nat} {read vs : List Value} (h : Fills k cs) (hbefore : Blanks before)
    (hafter : Blanks after) (hread : values now (steps + 1) read (before ++ (cs ++ after)) = .ok vs) :
    ∃ w, w.skeleton = k ∧ vs = read ++ [w] := by
  rcases values_eq_ok hread with ⟨hblanks, -⟩ |
    ⟨front, body, w, back, next, hfront, hcs, hvalue, hback, hnext⟩
  · exact absurd hblanks h.not_blanks
  have hbody := eq_trimStart hbefore hfront hvalue hcs
  rw [readValue, hbody] at hvalue
  have hfollows : Follows after := by simpa using Follows.nil.blanks hafter
  obtain ⟨hw, tail, hleftover, htail⟩ := h.read hfollows hvalue
  rcases hnext with ⟨-, hvs⟩ | ⟨rest, rfl, -⟩
  · exact ⟨w, hw, hvs⟩
  · -- there is no comma after the value
    have hcomma : ',' ∈ tail ++ after := hleftover ▸ List.mem_append_right back (.head rest)
    rcases List.mem_append.1 hcomma with hmem | hmem
    · cases htail ',' hmem
    · cases hafter ',' hmem

/-- A value of a list is read, and the comma after it. -/
theorem Fills.more {steps : Nat} {read vs : List Value} (h : Fills k cs) (hbefore : Blanks before)
    (hafter : Blanks after)
    (hread : values now (steps + 1) read (before ++ (cs ++ (after ++ ',' :: rest))) = .ok vs) :
    ∃ w, w.skeleton = k ∧ values now steps (read ++ [w]) rest = .ok vs := by
  rcases values_eq_ok hread with ⟨hblanks, -⟩ |
    ⟨front, body, w, back, next, hfront, hcs, hvalue, hback, hnext⟩
  · exact absurd hblanks h.not_blanks
  have hbody := eq_trimStart hbefore hfront hvalue hcs
  rw [readValue, hbody] at hvalue
  rcases hnext with ⟨rfl, -⟩ | ⟨rest', rfl, hmore⟩
  · -- the comma after the value is left over
    obtain ⟨-, tail, hleftover, -⟩ := h.read ((Follows.separator rfl rest).blanks hafter) hvalue
    have hcomma : ',' ∈ back := by
      rw [List.append_nil] at hleftover
      simp [hleftover]
    cases hback ',' hcomma
  · obtain ⟨hw, -, rfl⟩ := h.separated hafter rfl hvalue hback rfl
    exact ⟨w, hw, hmore⟩

/-- The values of a draft. -/
theorem skeletons_of_values (drafts : Items) (hdrafts : ∀ leaf ∈ drafts.leaves, leaf.Sound)
    {cs : List Char} (hcs : drafts.Written cs) (steps : Nat) (read : List Value) {vs : List Value}
    (h : values now steps read cs = .ok vs) :
    ∃ ws, vs = read ++ ws ∧ Value.skeletons ws = drafts.skeletons := by
  cases steps with
  | zero => simp [values] at h
  | succ steps =>
    match drafts with
    | .none gap =>
      obtain rfl : cs = gap.text := hcs
      rw [values_end gap.blank] at h
      cases h
      exact ⟨[], by simp, rfl⟩
    | .last before v after =>
      obtain ⟨body, hbody, rfl⟩ := hcs
      obtain ⟨w, hw, rfl⟩ := (fills_tree before v hdrafts hbody).last before.blank after.blank h
      exact ⟨[w], rfl, by simp [Value.skeletons, Items.skeletons, hw]⟩
    | .more before v after drafts =>
      obtain ⟨body, tail, hbody, htail, rfl⟩ := hcs
      simp only [Items.leaves, List.mem_append, or_imp, forall_and] at hdrafts
      obtain ⟨w, hw, hmore⟩ :=
        (fills_tree before v hdrafts.1 hbody).more before.blank after.blank h
      obtain ⟨ws, rfl, hws⟩ := skeletons_of_values drafts hdrafts.2 htail steps _ hmore
      exact ⟨w :: ws, by simp, by simp [Value.skeletons, Items.skeletons, hw, hws]⟩

end ShellQuery.Draft
