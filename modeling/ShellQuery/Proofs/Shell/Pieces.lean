/-
  ShellQuery.Proofs.Shell.Pieces

  The pieces of a tree under one rule. Scalars, keys, literals and the calls of other wrappers are
  copied, and a call of the wrapper is replaced, whatever follows that may follow a value.
-/
import ShellQuery.Proofs.Shell.Site
import ShellQuery.Proofs.Shell.Unwrapping

namespace ShellQuery.Wrapper

open Text Shell

variable {w : Wrapper} {m : Prop} {c : Char} {last before : Option Char}
  {cs rest rest' gap : List Char}

/-! ## Scalars and keys -/

theorem Ready.atom (hcs : Atom cs) (hm : m ∨ ¬ Opens w cs) (h : Ready w m rest rest') :
    Ready w m (cs ++ rest) (cs ++ rest') := by
  cases hcs with
  | inert hcs => exact h.inert hcs
  | @string q cs hq hinside =>
    have hfence : isFence q = true := by simp [isFence, hq]
    have hletter := isAsciiLetter_of_isQuote hq
    have hm' : m ∨ ¬ Opens w cs := hm.imp_right fun hopens hcs =>
      hopens (hcs.mono (List.suffix_cons q cs).isInfix)
    constructor
    · intro last before
      refine .copy (match?_of_not_letter hletter) ?_
      rw [Zone.next_code_quote hq]
      exact .inside hinside hfence hm' (h.settled _ _)
    · refine .of_head (by simp [hletter, isBlank_of_isQuote hq]) ?_
      rintro rfl
      cases hq

/-- The letters of a word after its first are copied. -/
theorem Settled.word (word : List Char) (hword : ∀ c ∈ word, isAsciiLetter c = true)
    (hbefore : before.any isWord = true)
    (h : ∀ last before, Settled w m (.code last) before rest rest') :
    Settled w m (.code last) before (word ++ rest) (word ++ rest') := by
  induction word generalizing last before with
  | nil => exact h last before
  | cons c word ih =>
    have hc := hword c (.head _)
    refine .copy (match?_of_isWord hbefore) ?_
    rw [Zone.next_code_of_isInert (isInert_of_isAsciiLetter hc)]
    exact ih (fun d hd => hword d (.tail _ hd)) (by simpa using isWord_of_isAsciiLetter hc)

/-- Blanks are copied, whatever is before them. -/
theorem Settled.space (hgap : Blanks gap)
    (h : ∀ last before, Settled w m (.code last) before rest rest') :
    Settled w m (.code last) before (gap ++ rest) (gap ++ rest') := by
  induction gap generalizing last before with
  | nil => exact h last before
  | cons c gap ih =>
    have hc := hgap c (.head _)
    exact .mark (isAsciiLetter_of_isBlank hc) (opensLiteral_of_isInert (isInert_of_isBlank hc))
      (ih fun d hd => hgap d (.tail _ hd))

/-- No wrapper has the name `Date`, so no rule matches at a date construction. -/
theorem match?_new_date (hgap : Blanks gap) (cs : List Char) :
    w.match? before ('n' :: 'e' :: 'w' :: (gap ++ 'D' :: cs)) = none := by
  cases hmatch : w.match? before ('n' :: 'e' :: 'w' :: (gap ++ 'D' :: cs)) with
  | none => rfl
  | some found =>
    obtain ⟨literal, rest⟩ := found
    obtain ⟨-, front, gap', args, hfront, -, hcs, -⟩ := match?_eq_some hmatch
    cases hfront with
    | nil => cases w <;> simp [constructorName] at hcs
    | @new blanks hblanks hne =>
      obtain ⟨d, name, hname⟩ := List.exists_cons_of_ne_nil (constructorName_ne_nil w)
      have hd : isBlank d = false := isBlank_of_isAsciiLetter
        (isAsciiLetter_of_mem_constructorName w d (by simp [hname]))
      have htext : gap ++ 'D' :: cs = blanks ++ d :: (name ++ (gap' ++ '(' :: args)) := by
        simpa [hname] using hcs
      obtain ⟨-, rfl, -⟩ := cut_unique (p := fun c => !isBlank c) htext
        (fun c hc => by simp [hgap c hc]) rfl (fun c hc => by simp [hblanks c hc]) (by simp [hd])
      cases w <;> simp [constructorName] at hname

theorem Settled.dateWord {word : List Char} (hword : DateWord word)
    (h : ∀ last before, Settled w m (.code last) before rest rest') :
    Settled w m (.code last) before (word ++ rest) (word ++ rest') := by
  have hdate : ∀ last before, Settled w m (.code last) before
      ('D' :: (['a', 't', 'e'] ++ rest)) ('D' :: (['a', 't', 'e'] ++ rest')) := by
    intro last before
    have hmatch : w.match? before ('D' :: (['a', 't', 'e'] ++ rest)) = none :=
      match?_of_head (by decide) (by intro w; cases w <;> simp [constructorName])
    exact .copy hmatch (.word ['a', 't', 'e'] (by decide) (by decide +kernel) h)
  cases hword with
  | call => exact hdate last before
  | @construct gap hgap =>
    have hnew : Settled w m (.code last) before
        ('n' :: (['e', 'w'] ++ (gap ++ 'D' :: (['a', 't', 'e'] ++ rest))))
        ('n' :: (['e', 'w'] ++ (gap ++ 'D' :: (['a', 't', 'e'] ++ rest')))) :=
      .copy (match?_new_date hgap _) (.word ['e', 'w'] (by decide) (by decide +kernel)
        fun last before => .space hgap hdate)
    simpa using hnew

theorem Ready.closing (h : Ready w m rest rest') : Ready w m (')' :: rest) (')' :: rest') :=
  .mark (by decide) (h.settled _ _)

/-- A date construction around an atom. -/
theorem Settled.date (last before : Option Char) {word front left argument right : List Char}
    (hword : DateWord word)
    (hfront : Blanks front) (hleft : Blanks left) (hargument : Atom argument)
    (hright : Blanks right) (hm : m ∨ ¬ Opens w argument) (h : Ready w m rest rest') :
    Settled w m (.code last) before
      (word ++ (front ++ '(' :: (left ++ (argument ++ (right ++ ')' :: rest)))))
      (word ++ (front ++ '(' :: (left ++ (argument ++ (right ++ ')' :: rest'))))) := by
  have hinner := ((h.closing.blanks hright).atom hargument hm).blanks hleft
  exact .dateWord hword fun last before => .space hfront fun last before =>
    .mark rfl rfl (hinner.settled _ _)

/-- A scalar is copied, a regular expression where a value may start. -/
theorem Settled.lexeme (hcs : Lexeme cs)
    (hstart : cs.head? = some '/' → Zone.valueMayStart last = true) (hm : m ∨ ¬ Opens w cs)
    (h : Ready w m rest rest') :
    Settled w m (.code last) before (cs ++ rest) (cs ++ rest') := by
  cases hcs with
  | atom hcs => exact (h.atom hcs hm).settled _ _
  | @regex body flags hbody hflags =>
    have hm' : m ∨ ¬ Opens w body := hm.imp_right fun hopens hbody =>
      hopens (hbody.mono ⟨['/'], flags, by simp⟩)
    have hrest := h.inert fun c hc => isInert_of_isAsciiLetter (hflags c hc)
    rw [List.cons_append, List.append_assoc, List.cons_append, List.append_assoc]
    refine .copy (match?_of_not_letter rfl) ?_
    rw [Zone.next_code_slash (hstart rfl)]
    exact .inside hbody rfl hm' (hrest.settled _ _)
  | @date word front left argument right hword hfront hleft hargument hright =>
    have hm' : m ∨ ¬ Opens w argument := hm.imp_right fun hopens hargument =>
      hopens (hargument.mono ⟨word ++ (front ++ '(' :: left), right ++ [')'], by simp⟩)
    simpa using Settled.date last before hword hfront hleft hargument hright hm' h

/-! ## What is between quotes -/

/-- Where there is no parenthesis, no call is opened. -/
theorem not_opens_of_not_mem (h : '(' ∉ cs) : ¬ Opens w cs := by
  rintro ⟨gap, -, hwithin⟩
  exact h (hwithin.subset (by simp))

theorem not_opens_of_isInert (h : ∀ c ∈ cs, isInert c = true) : ¬ Opens w cs :=
  not_opens_of_not_mem fun hmem => by cases h _ hmem

/-- A call that a quoted text opens is opened inside its quotes. -/
theorem opens_of_quoted {q q' : Char} (hq : isQuote q = true) (hq' : isQuote q' = true)
    (h : Opens w (q :: (cs ++ [q']))) : Opens w cs := by
  obtain ⟨gap, hgap, hwithin⟩ := h
  refine ⟨gap, hgap, ?_⟩
  rcases List.infix_cons_iff.1 hwithin with hfirst | hwithin
  · obtain ⟨c, name, hname⟩ := List.exists_cons_of_ne_nil (constructorName_ne_nil w)
    obtain ⟨tail, htail⟩ := hfirst
    obtain rfl : c = q := by simpa [hname] using congrArg List.head? htail
    have hletter := isAsciiLetter_of_mem_constructorName w c (by simp [hname])
    simp [isAsciiLetter_of_isQuote hq] at hletter
  rcases List.infix_concat_iff.1 hwithin with hlast | hwithin
  · obtain ⟨front, hfront⟩ := hlast
    obtain rfl : '(' = q' := by simpa using congrArg List.getLast? hfront
    cases hq'
  · exact hwithin

theorem inside_quoted {q : Char} {content : List Char} (hq : isQuote q = true)
    (h : ∀ c ∈ content, isQuote c = false ∧ c ≠ '\\') :
    Inside q (.literal q false) (content ++ [q]) := by
  refine (Inside.close rfl (Zone.next_string_end hq)).of_steady fun c hc => ?_
  refine Zone.next_string hq ?_ (h c hc).2
  rintro rfl
  simp [(h c hc).1] at hq

theorem atom_quoted {q : Char} {content : List Char} (hq : isQuote q = true)
    (h : ∀ c ∈ content, isQuote c = false ∧ c ≠ '\\') : Atom (q :: (content ++ [q])) :=
  .string hq (inside_quoted hq h)

theorem atom_of_quoted (x : Quoted) : Atom x.text :=
  atom_quoted x.isQuote x.plain

theorem inert_of_digits (n : Digits) : ∀ c ∈ n.text, isInert c = true :=
  fun c hc => isInert_of_class (p := isAsciiDigit) (by decide) (n.digit c hc)

/-- A number and the comma after it. -/
theorem inert_of_pair (n : Digits) (left right : Gap) :
    ∀ c ∈ n.text ++ left.text ++ ',' :: right.text, isInert c = true := by
  intro c hc
  simp only [List.mem_append, List.mem_cons] at hc
  rcases hc with (hc | hc) | rfl | hc
  · exact inert_of_digits n c hc
  · exact isInert_of_isBlank (left.blank c hc)
  · decide
  · exact isInert_of_isBlank (right.blank c hc)

theorem inert_of_whole (n : Whole) : ∀ c ∈ n.literal, isInert c = true := by
  intro c hc
  rcases List.mem_append.1 hc with hc | hc
  · split at hc
    · rw [List.mem_singleton.1 hc]; decide
    · cases hc
  · exact inert_of_digits n.digits c hc

theorem atom_of_decimal (n : Decimal) : Atom n.literal := by
  obtain ⟨v, hread⟩ := n.read
  obtain ⟨taken, htaken, hatom⟩ := atom_of_number hread
  rw [List.append_nil] at htaken
  exact htaken ▸ hatom

theorem atom_of_whole (n : Whole) : Atom n.text := by
  cases hq : n.quote with
  | none => simpa [Whole.text, hq] using Atom.inert (inert_of_whole n)
  | some q =>
    have hplain : ∀ c ∈ n.literal, isQuote c = false ∧ c ≠ '\\' := by
      intro c hc
      rcases List.mem_append.1 hc with hc | hc
      · split at hc
        · rw [List.mem_singleton.1 hc]; decide
        · cases hc
      · have hdigit := n.digits.digit c hc
        exact ⟨isQuote_of_isAsciiDigit hdigit, ne_backslash_of_isAsciiDigit hdigit⟩
    simpa [Whole.text, hq] using atom_quoted (n.isQuote q hq) hplain

theorem opens_of_whole {n : Whole} (h : Opens w n.text) : Opens w n.literal := by
  cases hq : n.quote with
  | none => simpa [Whole.text, hq] using h
  | some q =>
    have hquote := n.isQuote q hq
    exact opens_of_quoted hquote hquote (by simpa [Whole.text, hq] using h)

/-- What stands between the parentheses of a call ends in an atom, with numbers and commas before
    it. -/
theorem exists_atom (x : Shell.Call) : ∃ front atom, x.inner = front ++ atom ∧
    (∀ c ∈ front, isInert c = true) ∧ Atom atom ∧ ∀ w, Opens w atom → Opens w x.quoted := by
  have hinert : ∀ {cs}, (∀ c ∈ cs, isInert c = true) → ∀ w, Opens w cs → Opens w x.quoted :=
    fun hcs w hopens => absurd hopens (not_opens_of_isInert hcs)
  cases x with
  | objectId x | isoDate x valid | uuid x =>
    exact ⟨[], x.text, rfl, by simp, atom_of_quoted x, fun w => opens_of_quoted x.isQuote x.isQuote⟩
  | newObjectId | isoNow => exact ⟨[], [], rfl, by simp, .inert (by simp), hinert (by simp)⟩
  | numberLong n | numberInt n =>
    exact ⟨[], n.text, rfl, by simp, atom_of_whole n, fun w => opens_of_whole⟩
  | numberDecimal n =>
    have hplain : ∀ c ∈ n.literal, isQuote c = false ∧ c ≠ '\\' := fun c hc =>
      ⟨isQuote_of_not_isStop (plain_of_decimal n c hc).1, (plain_of_decimal n c hc).2.2⟩
    exact ⟨[], n.text, rfl, by simp, atom_quoted n.isQuote hplain,
      fun w => opens_of_quoted n.isQuote n.isQuote⟩
  | binData kind left right x =>
    refine ⟨kind.text ++ left.text ++ ',' :: right.text, x.text, by simp [Call.inner], ?_,
      atom_of_quoted x, fun w => opens_of_quoted x.isQuote x.isQuote⟩
    exact inert_of_pair kind left right
  | timestamp seconds left right increment =>
    refine ⟨seconds.text ++ left.text ++ ',' :: right.text, increment.text, by simp [Call.inner],
      inert_of_pair seconds left right, .inert (inert_of_digits increment),
      hinert (inert_of_digits increment)⟩

/-! ## Calls -/

theorem Ready.inner (x : Shell.Call) (hm : m ∨ ¬ Opens w x.quoted) (h : Ready w m rest rest') :
    Ready w m (x.inner ++ rest) (x.inner ++ rest') := by
  obtain ⟨front, atom, hinner, hfront, hatom, hopens⟩ := exists_atom x
  rw [hinner, List.append_assoc, List.append_assoc]
  exact (h.atom hatom (hm.imp_right fun hquoted hcs => hquoted (hopens w hcs))).inert hfront

/-- A call of another wrapper is copied. -/
theorem Settled.site_of_ne (s : Site) (hw : w ≠ s.call.wrapper)
    (hm : m ∨ ¬ Opens w s.call.quoted) (hbefore : before.any isWord = false)
    (h : Ready w m rest rest') :
    Settled w m (.code last) before (s.text ++ rest) (s.text ++ rest') := by
  -- the arguments and the closing parenthesis, from the right
  have harguments := ((h.closing.blanks s.beforeClosing.blank).inner s.call hm).blanks
    s.afterOpening.blank
  -- the name stops no rule but its own: its letters are copied, then the blanks and the parenthesis
  have hname : ∀ last before, before.any isWord = false → Settled w m (.code last) before
      (s.call.wrapper.constructorName ++ (s.beforeOpening.text ++ '(' :: (s.afterOpening.text ++
        (s.call.inner ++ (s.beforeClosing.text ++ ')' :: rest)))))
      (s.call.wrapper.constructorName ++ (s.beforeOpening.text ++ '(' :: (s.afterOpening.text ++
        (s.call.inner ++ (s.beforeClosing.text ++ ')' :: rest'))))) := by
    intro last before hbefore
    have hmatch := match?_front (w := w) s hbefore .nil rest
    obtain ⟨c, name, hname⟩ := List.exists_cons_of_ne_nil (constructorName_ne_nil s.call.wrapper)
    have hletters : ∀ d ∈ c :: name, isAsciiLetter d = true :=
      hname ▸ isAsciiLetter_of_mem_constructorName s.call.wrapper
    rw [if_neg hw, List.nil_append, hname] at hmatch
    rw [hname]
    refine .copy hmatch ?_
    rw [Zone.next_code_of_isInert (isInert_of_isAsciiLetter (hletters c (.head _)))]
    refine .word name (fun d hd => hletters d (.tail _ hd)) ?_ fun last before =>
      .space s.beforeOpening.blank fun last before => .mark rfl rfl (harguments.settled _ _)
    simpa using isWord_of_isAsciiLetter (hletters c (.head _))
  have hmatch := match?_site (w := w) s hbefore rest
  rw [if_neg hw] at hmatch
  rw [site_append] at hmatch ⊢
  rw [site_append]
  -- with `new` in front, the rule is tried there first, and the name comes behind a blank
  cases hnew : s.construct with
  | none =>
    have hfront : s.front = [] := by simp [Site.front, hnew]
    rw [hfront]
    exact hname last before hbefore
  | some gap =>
    have hfront : s.front = 'n' :: 'e' :: 'w' :: gap.text := by simp [Site.front, hnew]
    rw [hfront] at hmatch ⊢
    refine .copy hmatch (.word ['e', 'w'] (by decide) (by decide +kernel) fun last before => ?_)
    refine .blanks gap.blank (fun hnil => absurd hnil (s.construct_ne_nil gap hnew)) fun b hb => ?_
    obtain ⟨last', hrun, -, -⟩ := Zone.run_blanks gap.blank last
    rw [hrun]
    exact hname last' b hb

/-- A word and what stands between parentheses after it are a passage of code. -/
theorem run_call {word front atom left right : List Char} (last : Option Char)
    (hword : ∀ c ∈ word, isInert c = true) (hleft : Blanks left)
    (hfront : ∀ c ∈ front, isInert c = true) (hatom : Atom atom) (hright : Blanks right) :
    (Zone.code last).run (word ++ '(' :: (left ++ (front ++ (atom ++ (right ++ [')']))))) =
      .code (some ')') := by
  obtain ⟨last₁, hpassWord⟩ := Passes.of_isInert last hword
  obtain ⟨last₂, hpassLeft⟩ := passes_of_blanks (some '(') hleft
  obtain ⟨last₃, hpassFront⟩ := Passes.of_isInert last₂ hfront
  obtain ⟨last₄, hpassAtom⟩ := hatom.passes last₃
  obtain ⟨last₅, hpassRight⟩ := passes_of_blanks last₄ hright
  have hpair := Passes.enclosed last₁ (o := '(') (c := ')') rfl rfl
    (((hpassLeft.append hpassFront).append hpassAtom).append hpassRight)
  simpa using (hpassWord.append hpair).run_eq

/-- The words of a call are inert. -/
theorem inert_of_front {front : List Char} (hfront : Front front) (hgap : Blanks gap) :
    ∀ c ∈ front ++ (w.constructorName ++ gap), isInert c = true := fun c hc =>
  isInert_of_class (p := fun c => isAsciiLetter c || isBlank c) (by decide)
    (letter_or_blank_of_mem hfront hgap c hc)

theorem run_site (s : Site) (last : Option Char) : (Zone.code last).run s.text = .code (some ')') := by
  obtain ⟨front, atom, hinner, hfront, hatom, -⟩ := exists_atom s.call
  have hrun := run_call last (inert_of_front (w := s.call.wrapper) (front_site s)
    s.beforeOpening.blank) s.afterOpening.blank hfront hatom s.beforeClosing.blank
  simpa [Site.text, Site.arguments, hinner] using hrun

/-- A call of the wrapper is replaced, whatever follows its closing parenthesis. -/
theorem Settled.site_closing (s : Site) (hm : m → ¬ (Leaf.call s).Closes s.call.wrapper)
    (hbefore : before.any isWord = false)
    (h : ∀ before, Settled s.call.wrapper m (.code (some ')')) before rest rest') :
    Settled s.call.wrapper m (.code last) before (s.text ++ rest) (s.call.literal ++ rest') := by
  have hmatch := match?_site (w := s.call.wrapper) s hbefore rest
  rw [if_pos rfl] at hmatch
  have hguard : m → Guard s.call.wrapper (s.text ++ rest) 0 := fun hm' =>
    (shielded_site s (hm hm') rest).guard
  have hrun := run_site s last
  cases htext : s.text with
  | nil => simp [Site.text, Site.arguments] at htext
  | cons c t =>
    rw [htext] at hmatch hguard hrun
    refine .call rfl hmatch hguard ?_
    rw [hrun]
    exact h _

/-- A call of the wrapper is replaced. -/
theorem Settled.site (s : Site) (hm : m → ¬ (Leaf.call s).Closes s.call.wrapper)
    (hbefore : before.any isWord = false) (h : Ready s.call.wrapper m rest rest') :
    Settled s.call.wrapper m (.code last) before (s.text ++ rest) (s.call.literal ++ rest') :=
  .site_closing s hm hbefore (h.settled _)

/-! ## Literals of calls -/

theorem Settled.dateOf {argument : List Char} (hargument : Atom argument)
    (hm : m ∨ ¬ Opens w argument) (h : Ready w m rest rest') :
    Settled w m (.code last) before (Call.dateOf argument ++ rest) (Call.dateOf argument ++ rest') := by
  simpa [Call.dateOf] using
    Settled.date last before (.construct .space) .nil .nil hargument .nil hm h

theorem Ready.timestampOf (seconds increment : Digits) (h : Ready w m rest rest') :
    Ready w m (Call.timestampOf seconds.text increment.text ++ rest)
      (Call.timestampOf seconds.text increment.text ++ rest') := by
  have hname : ∀ c, c = 't' ∨ c = 'i' → Atom ['"', c, '"'] ∧ ¬ Opens w ['"', c, '"'] := by
    rintro c (rfl | rfl)
    · exact ⟨@atom_quoted '"' ['t'] rfl (by decide), not_opens_of_not_mem (by decide)⟩
    · exact ⟨@atom_quoted '"' ['i'] rfl (by decide), not_opens_of_not_mem (by decide)⟩
  have hincrement : Ready w m ([':', ' '] ++ (increment.text ++ '}' :: rest))
      ([':', ' '] ++ (increment.text ++ '}' :: rest')) :=
    ((Ready.mark (by decide) (h.settled _ _)).inert (inert_of_digits increment)).inert (by decide)
  have hseconds : Ready w m
      ([':', ' '] ++ (seconds.text ++ ([',', ' '] ++ (['"', 'i', '"'] ++
        ([':', ' '] ++ (increment.text ++ '}' :: rest))))))
      ([':', ' '] ++ (seconds.text ++ ([',', ' '] ++ (['"', 'i', '"'] ++
        ([':', ' '] ++ (increment.text ++ '}' :: rest')))))) :=
    (((hincrement.atom (hname 'i' (.inr rfl)).1 (.inr (hname 'i' (.inr rfl)).2)).inert
      (by decide)).inert (inert_of_digits seconds)).inert (by decide)
  have hfields := hseconds.atom (hname 't' (.inl rfl)).1 (.inr (hname 't' (.inl rfl)).2)
  have hobject := Ready.mark (c := '{') (by decide) (hfields.settled _ _)
  simpa [Call.timestampOf] using hobject

/-- The literal of a call that was replaced is copied. -/
theorem Settled.literal (x : Shell.Call) (hm : m ∨ ¬ Opens w x.quoted) (h : Ready w m rest rest') :
    Settled w m (.code last) before (x.literal ++ rest) (x.literal ++ rest') := by
  have hquote : ∀ {content}, (∀ c ∈ content, isQuote c = false ∧ c ≠ '\\') →
      Atom (quote content) ∧ (Opens w (quote content) → Opens w content) := fun hplain =>
    ⟨atom_quoted rfl hplain, opens_of_quoted rfl rfl⟩
  cases x with
  | objectId x | uuid x | binData kind left right x =>
    obtain ⟨hatom, hopens⟩ := hquote x.plain
    exact (h.atom hatom (hm.imp_right (mt hopens))).settled _ _
  | newObjectId =>
    have hnil : ¬ Opens w (quote []) := not_opens_of_not_mem (by decide)
    exact (h.atom (hquote (by simp)).1 (.inr hnil)).settled _ _
  | isoDate x valid =>
    obtain ⟨hatom, hopens⟩ := hquote x.plain
    exact .dateOf hatom (hm.imp_right (mt hopens)) h
  | isoNow => exact .dateOf (.inert (by simp)) (.inr (not_opens_of_not_mem (by simp))) h
  | numberLong n | numberInt n => exact (h.inert (inert_of_whole n)).settled _ _
  | numberDecimal n => exact (h.atom (atom_of_decimal n) hm).settled _ _
  | timestamp seconds left right increment =>
    exact (h.timestampOf seconds increment).settled _ _

end ShellQuery.Wrapper
