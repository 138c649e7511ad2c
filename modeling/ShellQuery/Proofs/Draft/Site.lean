/-
  ShellQuery.Proofs.Draft.Site

  A rule at a call with any payload. The rule takes the call whole and puts its literal there, or it
  takes nothing and the call is copied; where a match from before the call is being copied, it goes
  on over the words of the call and ends in the payload or later. So a call is copied as it was
  typed, or it is replaced.
-/
import ShellQuery.Proofs.Draft.Syntax
import ShellQuery.Proofs.Draft.Turning
import ShellQuery.Proofs.Locality

namespace ShellQuery.Draft

open Text Wrapper

variable {w : Wrapper} {c q : Char} {gap gap' cs rest content : List Char}

/-! ## Reading what is written -/

theorem payload?_text (x : Payload) (hgap : Blanks gap) (rest : List Char) :
    payload? (gap ++ (x.text ++ rest)) = x.content?.map fun content => (content, rest) := by
  by_cases hne : x.content = []
  · simp [Payload.content?, Payload.text, hne, payload?, trimStart_blanks_append hgap,
      trimStart_cons (isBlank_of_isQuote x.isQuote), x.isQuote, run?]
  · have hread := payload?_between hgap x.isQuote x.isQuote hne (fun c hc => (x.plain c hc).1) rest
    simpa [Payload.content?, Payload.text, hne] using hread

theorem run?_append_rest {p : Char → Bool} (h : ∀ c ∈ rest.head?, p c = false) (cs : List Char) :
    run? p (cs ++ rest) = (run? p cs).map fun (taken, after) => (taken, after ++ rest) := by
  obtain ⟨htake, hdrop⟩ := takeWhile_append cs h
  simp only [run?, htake, hdrop]
  cases cs.takeWhile p <;> rfl

/-- An integer is read up to a quote at most. -/
theorem integer?_append (hq : isQuote q = true) (cs rest : List Char) :
    integer? (cs ++ q :: rest) =
      (integer? cs).map fun (digits, after) => (digits, after ++ q :: rest) := by
  have hstop : ∀ c ∈ (q :: rest).head?, isWordDigit c = false := by
    simpa using isWordDigit_of_isQuote hq
  have hread := run?_append_rest hstop
  cases cs with
  | nil =>
    have hminus : q ≠ '-' := by
      rintro rfl
      cases hq
    have hplain : integer? (q :: rest) = run? isWordDigit (q :: rest) := by
      simp [integer?, hminus]
    rw [List.nil_append, hplain]
    exact hread []
  | cons c cs =>
    -- a minus sign is no digit, so it is taken apart before the digits are run over
    by_cases hminus : c = '-'
    · subst hminus
      have hminus : ∀ cs, integer? ('-' :: cs) =
          (run? isWordDigit cs).map fun (ds, rest) => ('-' :: ds, rest) := fun cs => rfl
      rw [List.cons_append, hminus, hminus, hread, Option.map_map, Option.map_map]
      rfl
    · have hplain : ∀ cs, integer? (c :: cs) = run? isWordDigit (c :: cs) := fun cs => by
        simp [integer?, hminus]
      rw [List.cons_append, hplain, hplain, ← List.cons_append]
      exact hread (c :: cs)

/-- What follows an integer closes the call only if it is a quote, or begins with a closing
    parenthesis. -/
theorem dropMark?_after (hq : isQuote q = true) (hcs : ∀ c ∈ cs, isQuote c = false)
    (hopen : (trimStart cs).head? ≠ some ')') (hgap : Blanks gap) (rest : List Char) :
    dropMark? ')' (dropQuote (cs ++ q :: (gap ++ ')' :: rest))) =
      if cs = [] then some rest else none := by
  cases cs with
  | nil =>
    have hmark : dropMark? ')' (gap ++ ')' :: rest) = some rest := dropMark?_blanks_append hgap rfl
    simpa [dropQuote, hq] using hmark
  | cons c cs =>
    have hdrop : dropQuote (c :: cs ++ q :: (gap ++ ')' :: rest)) =
        c :: cs ++ q :: (gap ++ ')' :: rest) := by
      simp [dropQuote, hcs c (.head _)]
    rw [hdrop, dropMark?_content hq hopen, if_neg (List.cons_ne_nil c cs)]

/-- An amount is taken whole, or no rule takes it. -/
theorem integer?_text (n : Amount) (hn : n.Uncut) (hgap : Blanks gap) (hgap' : Blanks gap')
    (rest : List Char) :
    ((integer? (dropQuote (trimStart (gap ++ (n.text ++ (gap' ++ ')' :: rest)))))).bind
      fun (digits, cs) => (dropMark? ')' (dropQuote cs)).map fun rest => (digits, rest)) =
      n.literal?.map fun literal => (literal, rest) := by
  cases n with
  | whole n => exact integer?_whole n hgap hgap' rest
  | quoted x =>
    have hfront : dropQuote (trimStart (gap ++ (x.text ++ (gap' ++ ')' :: rest)))) =
        x.content ++ x.quote :: (gap' ++ ')' :: rest) := by
      rw [trimStart_blanks_append hgap]
      simp [Payload.text, trimStart_cons (isBlank_of_isQuote x.isQuote), dropQuote, x.isQuote]
    rw [Amount.text, hfront, integer?_append x.isQuote, Amount.literal?]
    cases hread : integer? x.content with
    | none => rfl
    | some found =>
      obtain ⟨digits, after⟩ := found
      have hafter : ∀ c ∈ after, isQuote c = false := fun c hc =>
        (x.plain c ((isSuffix_of_integer? hread).subset hc)).1
      have hmark := dropMark?_after x.isQuote hafter (hn digits after hread) hgap' rest
      simp only [Option.map_some, Option.bind_some, hmark]
      split <;> rfl

/-- Between two quotes with nothing in them no loose payload begins, nor before them. -/
theorem loosePayload?_empty (hq : isQuote q = true) (hgap : Blanks gap) (rest : List Char) :
    loosePayload? (gap ++ q :: q :: rest) = none := by
  induction gap with
  | nil => simp [loosePayload?, hq]
  | cons b gap ih =>
    have hgap' : Blanks gap := fun c hc => hgap c (.tail _ hc)
    have hb : (isQuote b || decide (b = ')')) = false := isStop_of_isBlank (hgap b (.head _))
    -- one quote may be dropped before the parenthesis, and the other is in the way
    have hmark : dropMark? ')' (dropQuote (gap ++ q :: q :: rest)) = none := by
      cases gap with
      | nil =>
        simpa [dropQuote, hq] using
          dropMark?_blanks_append_of_ne .nil (isBlank_of_isQuote hq) (ne_of_isQuote hq)
      | cons d gap =>
        have hd := isQuote_of_not_isStop (isStop_of_isBlank (hgap' d (.head _)))
        have hdrop : dropQuote (d :: gap ++ q :: q :: rest) = d :: gap ++ q :: q :: rest := by
          simp [dropQuote, hd]
        rw [hdrop]
        exact dropMark?_blanks_append_of_ne hgap' (isBlank_of_isQuote hq) (ne_of_isQuote hq)
    rw [List.cons_append, loosePayload?, hb, hmark, ih hgap']
    rfl

theorem loose?_empty (hq : isQuote q = true) (hgap : Blanks gap) (rest : List Char) :
    loose? (gap ++ q :: q :: rest) = none := by
  induction gap with
  | nil => simp [loose?, isBlank_of_isQuote hq, hq, loosePayload?]
  | cons b gap ih =>
    have hb := hgap b (.head _)
    have hlater := ih fun c hc => hgap c (.tail _ hc)
    have hhere := loosePayload?_empty hq hgap rest
    rw [List.cons_append] at hhere ⊢
    simp [loose?, hb, hlater, hhere]

theorem Bare.isStop (h : Bare cs) (hplain : ∀ c ∈ cs, isQuote c = false) :
    ∀ c ∈ cs, isStop c = false := by
  intro c hc
  have hne : c ≠ ')' := by
    rintro rfl
    cases (h.plain _ hc).1
  simp [Wrapper.isStop, hplain c hc, hne]

theorem loose?_text (x : Payload) (hx : x.content ≠ [] → Bare x.content) (hgap : Blanks gap)
    (hgap' : Blanks gap') (rest : List Char) :
    loose? (gap ++ (x.text ++ (gap' ++ ')' :: rest))) =
      x.content?.map fun content => (content, rest) := by
  by_cases hne : x.content = []
  · simpa [Payload.content?, Payload.text, hne] using
      loose?_empty x.isQuote hgap (gap' ++ ')' :: rest)
  · have hstop := (hx hne).isStop fun c hc => (x.plain c hc).1
    have hread := loose?_between hgap x.isQuote x.isQuote hne hstop hgap' rest
    simpa [Payload.content?, Payload.text, hne] using hread

/-! ## Arguments -/

/-- The rule of a wrapper reads all that stands between the parentheses of its call, or nothing. -/
theorem arguments?_inner (x : Call) (hx : x.Sound) (hgap : Blanks gap) (hgap' : Blanks gap')
    (rest : List Char) :
    x.wrapper.arguments? (gap ++ (x.inner ++ (gap' ++ ')' :: rest))) =
      x.literal?.map fun literal => (literal, rest) := by
  have hmark : dropMark? ')' (gap' ++ ')' :: rest) = some rest :=
    dropMark?_blanks_append hgap' rfl
  have hclosed : dropMark? ')' (gap ++ (gap' ++ ')' :: rest)) = some rest := by
    simpa [dropMark?, trimStart_blanks_append hgap] using hmark
  cases x with
  | objectId x | uuid x | isoDate x =>
    cases hcontent : x.content? with
    | none => simp [Call.wrapper, Call.inner, Call.literal?, arguments?, payload?_text x hgap, hcontent]
    | some content =>
      simp [Call.wrapper, Call.inner, Call.literal?, Shell.Call.dateOf, arguments?,
        payload?_text x hgap, hcontent, hmark]
  | newObjectId => simp [Call.wrapper, Call.inner, Call.literal?, arguments?, hclosed]
  | isoNow => simp [Call.wrapper, Call.inner, Call.literal?, Shell.Call.dateOf, arguments?, hclosed]
  | numberLong n | numberInt n =>
    have hread := integer?_text n hx hgap hgap' rest
    simp only [Call.wrapper, Call.inner, Call.literal?, arguments?]
    -- the rule and `integer?_text` differ in how they hand on what they read
    rw [← hread]
    simp only [Option.bind_eq_bind]
    congr 1
    funext found
    cases dropMark? ')' (dropQuote found.2) <;> rfl
  | numberDecimal x => exact loose?_text x hx hgap hgap' rest
  | binData kind left right x =>
    have hrun := fun rest => run?_digits kind (isWordDigit_of_mem_head? left.blank (.inl rfl) rest)
    have hcomma : ∀ rest, dropMark? ',' (left.text ++ ',' :: rest) = some rest :=
      fun rest => dropMark?_blanks_append left.blank rfl
    cases hcontent : x.content? with
    | none =>
      simp [Call.wrapper, Call.inner, Call.literal?, arguments?, trimStart_digits kind hgap, hrun,
        hcomma, payload?_text x right.blank, hcontent]
    | some content =>
      simp [Call.wrapper, Call.inner, Call.literal?, arguments?, trimStart_digits kind hgap, hrun,
        hcomma, payload?_text x right.blank, hcontent, hmark]

/-- Two wrappers of one name take different arguments: a payload, or none. -/
theorem arguments?_inner_of_ne (x : Call) (hne : w ≠ x.wrapper)
    (hname : w.constructorName = x.wrapper.constructorName) (hgap : Blanks gap)
    (hgap' : Blanks gap') (rest : List Char) :
    w.arguments? (gap ++ (x.inner ++ (gap' ++ ')' :: rest))) = none := by
  have hquoted : ∀ x : Payload,
      dropMark? ')' (gap ++ (x.text ++ (gap' ++ ')' :: rest))) = none := by
    intro x
    exact dropMark?_blanks_append_of_ne hgap (isBlank_of_isQuote x.isQuote) (ne_of_isQuote x.isQuote)
  have hempty : payload? (gap ++ (gap' ++ ')' :: rest)) = none := by
    simp [payload?, trimStart_blanks_append hgap, trimStart_blanks_append hgap',
      trimStart_cons (c := ')') rfl, isQuote]
  cases x <;> cases w <;> simp [Call.wrapper, constructorName] at hne hname
  · simp [Call.inner, arguments?, hquoted]
  · simp [Call.inner, arguments?, hempty]
  · simp [Call.inner, arguments?, hquoted]
  · simp [Call.inner, arguments?, hempty]

/-! ## The text of a call -/

/-- What stands after the opening parenthesis of a call. -/
def Site.after (s : Site) (rest : List Char) : List Char :=
  s.afterOpening.text ++ (s.call.inner ++ (s.beforeClosing.text ++ ')' :: rest))

theorem front_site (s : Site) : Front s.front := by
  rw [Site.front]
  cases hnew : s.construct with
  | none => exact .nil
  | some gap => exact .new gap.blank (s.construct_ne_nil gap hnew)

theorem site_append (s : Site) (rest : List Char) :
    s.text ++ rest = s.front ++ (s.call.wrapper.constructorName ++ (s.beforeOpening.text ++
      '(' :: s.after rest)) := by
  simp [Site.text, Site.after]

/-- What stands between the parentheses of a call ends in an atom, with a number and a comma before
    it. -/
theorem exists_atom (x : Call) : ∃ front atom, x.inner = front ++ atom ∧
    (∀ c ∈ front, isInert c = true) ∧ Atom atom := by
  cases x with
  | objectId x | isoDate x | numberDecimal x | uuid x =>
    exact ⟨[], x.text, rfl, by simp, atom_quoted x.isQuote x.plain⟩
  | newObjectId | isoNow => exact ⟨[], [], rfl, by simp, .inert (by simp)⟩
  | numberLong n | numberInt n =>
    cases n with
    | whole n => exact ⟨[], n.text, rfl, by simp, atom_of_whole n⟩
    | quoted x => exact ⟨[], x.text, rfl, by simp, atom_quoted x.isQuote x.plain⟩
  | binData kind left right x =>
    exact ⟨kind.text ++ left.text ++ ',' :: right.text, x.text, by simp [Call.inner],
      inert_of_pair kind left right, atom_quoted x.isQuote x.plain⟩

/-- A call is a passage of code. -/
theorem run_text (s : Site) (last : Option Char) : (Zone.code last).run s.text = .code (some ')') := by
  obtain ⟨front, atom, hinner, hfront, hatom⟩ := exists_atom s.call
  have hrun := run_call last (inert_of_front (w := s.call.wrapper) (front_site s)
    s.beforeOpening.blank) s.afterOpening.blank hfront hatom s.beforeClosing.blank
  simpa [Site.text, hinner] using hrun

/-! ## A rule at a call -/

section
variable {last before : Option Char} {P : List Char → Prop}

/-- What stands after the opening parenthesis of a call is copied. -/
theorem resumes_after (s : Site)
    (h : Turns w (.code (some ')')) (some ')') rest fun out => P (s.after out)) :
    Resumes w (s.after rest) P := by
  obtain ⟨front, atom, hinner, hfront, hatom⟩ := exists_atom s.call
  have hafter : ∀ out, s.after out = s.afterOpening.text ++ (front ++ (atom ++
      (s.beforeClosing.text ++ ')' :: out))) := by
    intro out
    simp [Site.after, hinner]
  simp only [hafter] at h ⊢
  exact .blanks s.afterOpening.blank (.inert hfront (.atom hatom
    (.blanks s.beforeClosing.blank (.mark (by decide) h))))

/-- A call is copied, if the rule of its name does not take it. -/
theorem turns_kept (s : Site) (hbefore : before.any isWord = false)
    (hnone : w.constructorName = s.call.wrapper.constructorName →
      w.arguments? (s.after rest) = none)
    (h : ∀ last before, Turns w (.code last) before rest fun out => P (s.text ++ out)) :
    Turns w (.code last) before (s.text ++ rest) P := by
  -- the call is tried twice: at `new`, and at its name
  have hmatch : ∀ {front before}, Front front → before.any isWord = false →
      w.match? before (front ++ (s.call.wrapper.constructorName ++ (s.beforeOpening.text ++
        '(' :: s.after rest))) = none := by
    intro front before hfront hbefore
    rw [match?_call w s.call.wrapper hbefore hfront s.beforeOpening.blank]
    split
    · exact hnone ‹_›
    · rfl
  -- the call from its name on
  have hname : ∀ {Q : List Char → Prop} {last before}, before.any isWord = false →
      (∀ last before, Turns w (.code last) before rest fun out => Q (s.call.wrapper.constructorName ++
        (s.beforeOpening.text ++ '(' :: s.after out))) →
      Turns w (.code last) before (s.call.wrapper.constructorName ++ (s.beforeOpening.text ++
        '(' :: s.after rest)) Q := by
    intro Q last before hbefore h
    have hfirst := hmatch .nil hbefore
    obtain ⟨c, name, hname⟩ := List.exists_cons_of_ne_nil (constructorName_ne_nil s.call.wrapper)
    have hletters : ∀ d ∈ c :: name, isAsciiLetter d = true :=
      hname ▸ isAsciiLetter_of_mem_constructorName s.call.wrapper
    rw [List.nil_append] at hfirst
    simp only [hname] at hfirst h ⊢
    refine .copy (fun _ => hfirst) ?_
    rw [Zone.next_code_of_isInert (isInert_of_isAsciiLetter (hletters c (.head _)))]
    refine .word name (fun d hd => hletters d (.tail _ hd)) ?_ fun last before =>
      .space s.beforeOpening.blank fun last before => .mark rfl rfl
        ((resumes_after s (h _ _)).turns _ _)
    simpa using isWord_of_isAsciiLetter (hletters c (.head _))
  have hfirst := hmatch (front_site s) hbefore
  simp only [site_append] at h ⊢
  cases hnew : s.construct with
  | none =>
    have hfront : s.front = [] := by simp [Site.front, hnew]
    simp only [hfront, List.nil_append] at h ⊢
    exact hname hbefore h
  | some gap =>
    have hfront : s.front = 'n' :: (['e', 'w'] ++ gap.text) := by simp [Site.front, hnew]
    rw [hfront] at hfirst
    simp only [hfront, List.cons_append, List.append_assoc] at h ⊢
    refine .copy (fun _ => by simpa using hfirst) (.word ['e', 'w'] (by decide) (by decide +kernel)
      fun last before => ?_)
    refine .blanks gap.blank (fun hnil => absurd hnil (s.construct_ne_nil gap hnew)) fun b hb => ?_
    obtain ⟨last', hrun, -, -⟩ := Zone.run_blanks gap.blank last
    rw [hrun]
    exact hname hb h

/-- Inert characters are copied. -/
theorem turnsCopied_inert {front : List Char} (hfront : ∀ c ∈ front, isInert c = true)
    (h : ∀ last before, TurnsCopied w (.code last) before rest fun out => P (front ++ out)) :
    TurnsCopied w (.code last) before (front ++ rest) P := by
  induction front generalizing last before P with
  | nil => exact h last before
  | cons c front ih =>
    have hc := hfront c (.head _)
    have hne : c ≠ ')' := by
      rintro rfl
      cases hc
    refine .cons hne ?_
    rw [Zone.next_code_of_isInert hc]
    exact ih (fun d hd => hfront d (.tail _ hd)) h

/-- A call is copied, if a match from before it reaches into it. -/
theorem turnsCopied_text (s : Site)
    (h : ∀ last before, Turns w (.code last) before rest fun out => P (s.text ++ out)) :
    TurnsCopied w (.code last) before (s.text ++ rest) P := by
  have hword := inert_of_front (w := s.call.wrapper) (front_site s) s.beforeOpening.blank
  have htext : ∀ out, s.text ++ out = (s.front ++ (s.call.wrapper.constructorName ++
      s.beforeOpening.text)) ++ '(' :: s.after out := by
    intro out
    simp [site_append]
  simp only [htext] at h ⊢
  refine turnsCopied_inert hword fun last before => .cons (by decide) ?_
  rw [Zone.next_code_opener rfl]
  exact ((resumes_after s (h _ _)).turns _ _).copied

/-- A call that its rule takes is replaced, if no match from before it is being copied. -/
theorem turns_replaced (s : Site) {literal : List Char}
    (hmatch : w.match? before (s.text ++ rest) = some (literal, rest))
    (hcopied : TurnsCopied w (.code last) before (s.text ++ rest) P)
    (h : ∀ before, Turns w (.code (some ')')) before rest fun out => P (literal ++ out)) :
    Turns w (.code last) before (s.text ++ rest) P := by
  rintro (_ | copying) hends
  -- the call is dropped, and the zone after it is that of code
  · have hrun := run_text s last
    cases htext : s.text with
    | nil => simp [Site.text] at htext
    | cons c t =>
      rw [htext] at hmatch hrun
      rw [List.cons_append] at hmatch ⊢
      have hlength : (t ++ rest).length - rest.length = t.length := by simp
      simp only [unwrapFrom, hmatch, Zone.isCode, if_true, hlength, unwrapFrom_dropping, hrun]
      exact h _ 0 (.zero rest)
  -- a match from before has not ended
  · exact hcopied copying hends

/-- A call is copied or replaced. -/
theorem turns_site (s : Site) (hs : s.call.Sound) (hbefore : before.any isWord = false)
    (h : ∀ cs, (Tree.call s).Written cs → ∀ last before,
      Turns w (.code last) before rest fun out => P (cs ++ out)) :
    Turns w (.code last) before (s.text ++ rest) P := by
  have hkept := h s.text (.inl rfl)
  by_cases hw : w = s.call.wrapper
  · subst hw
    have hargs := arguments?_inner s.call hs s.afterOpening.blank s.beforeClosing.blank rest
    rw [← Site.after] at hargs
    cases hliteral : s.call.literal? with
    | none =>
      rw [hliteral] at hargs
      exact turns_kept s hbefore (fun _ => hargs) hkept
    | some literal =>
      rw [hliteral] at hargs
      have hmatch : s.call.wrapper.match? before (s.text ++ rest) = some (literal, rest) := by
        rw [site_append, match?_call _ _ hbefore (front_site s) s.beforeOpening.blank, if_pos rfl,
          hargs]
        rfl
      exact turns_replaced s hmatch (turnsCopied_text s hkept) (h literal (.inr hliteral) _)
  · exact turns_kept s hbefore (fun hname => arguments?_inner_of_ne s.call hw hname
      s.afterOpening.blank s.beforeClosing.blank rest) hkept

end

end ShellQuery.Draft
