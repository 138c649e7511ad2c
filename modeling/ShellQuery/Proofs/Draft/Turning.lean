/-
  ShellQuery.Proofs.Draft.Turning

  What one rule may make of a text of which no more is known than where its calls stand. A match
  that begins inside a literal is copied, and it may reach over any number of calls, so which calls
  are replaced hangs on everything before them. But every match ends after a closing parenthesis
  (`Ends`), and that is enough to know in which ways a call can be copied.

  `Turns` states a property of what the rule makes of a text, wherever the copying ends. Texts turn
  piece by piece: a piece that is copied turns if the rest does, with the piece put in front of it.
-/
import ShellQuery.Proofs.Shell.Pieces

namespace ShellQuery.Wrapper

open Text

variable {w : Wrapper} {z : Zone} {before : Option Char} {c d : Char} {n : Nat}
  {cs rest literal taken front gap : List Char} {P : List Char → Prop}

/-! ## Where a match ends -/

theorem isSuffix_of_dropMark? (h : dropMark? d cs = some rest) : d :: rest <:+ cs := by
  obtain ⟨gap, -, rfl⟩ := dropMark?_eq_some h
  exact ⟨gap, rfl⟩

theorem isSuffix_of_dropQuote (cs : List Char) : dropQuote cs <:+ cs := by
  obtain ⟨q, hcs, -⟩ := dropQuote_cases cs
  exact ⟨q.toList, hcs.symm⟩

theorem isSuffix_of_run? {p : Char → Bool} (h : run? p cs = some (taken, rest)) : rest <:+ cs := by
  obtain ⟨-, -, rfl⟩ := run?_eq_some h
  exact List.dropWhile_suffix p

theorem isSuffix_of_integer? (h : integer? cs = some (taken, rest)) : rest <:+ cs := by
  simp only [integer?] at h
  split at h
  · obtain ⟨⟨ds, rest'⟩, hrun, hrest⟩ := Option.map_eq_some_iff.1 h
    cases hrest
    exact (isSuffix_of_run? hrun).trans (List.suffix_cons _ _)
  · exact isSuffix_of_run? h

theorem isSuffix_of_payload? (h : payload? cs = some (taken, rest)) : rest <:+ cs := by
  obtain ⟨gap, q, q', -, rfl, -⟩ := payload?_eq_some h
  exact ⟨gap ++ q :: (taken ++ [q']), by simp⟩

theorem isSuffix_of_trimStart (cs : List Char) : trimStart cs <:+ cs :=
  List.dropWhile_suffix isBlank

/-- What a rule takes for the arguments of a call ends with a closing parenthesis. -/
theorem isSuffix_of_arguments? (h : w.arguments? cs = some (literal, rest)) :
    ')' :: rest <:+ cs := by
  -- each rule reads its pieces from the left: the suffixes are composed from the right
  cases w with
  | objectId | isoDate | uuid =>
    simp only [arguments?, Option.bind_eq_bind, Option.bind_eq_some_iff] at h
    obtain ⟨⟨payload, cs₁⟩, hpayload, rest', hmark, hrest⟩ := h
    cases hrest
    exact (isSuffix_of_dropMark? hmark).trans (isSuffix_of_payload? hpayload)
  | newObjectId | isoNow =>
    simp only [arguments?, Option.bind_eq_bind, Option.bind_eq_some_iff] at h
    obtain ⟨rest', hmark, hrest⟩ := h
    cases hrest
    exact isSuffix_of_dropMark? hmark
  | numberLong | numberInt =>
    simp only [arguments?, Option.bind_eq_bind, Option.bind_eq_some_iff] at h
    obtain ⟨⟨digits, cs₁⟩, hinteger, rest', hmark, hrest⟩ := h
    cases hrest
    have hcs₁ : ')' :: rest <:+ cs₁ :=
      (isSuffix_of_dropMark? hmark).trans (isSuffix_of_dropQuote cs₁)
    exact (hcs₁.trans (isSuffix_of_integer? hinteger)).trans
      ((isSuffix_of_dropQuote _).trans (isSuffix_of_trimStart cs))
  | numberDecimal =>
    obtain ⟨front, cs', rfl, -, hread⟩ := loose?_eq_some h
    obtain ⟨q, gap, rfl, -⟩ := loosePayload?_eq_some hread
    exact ⟨front ++ (literal ++ (q.toList ++ gap)), by simp⟩
  | binData =>
    simp only [arguments?, Option.bind_eq_bind, Option.bind_eq_some_iff] at h
    obtain ⟨⟨kind, cs₁⟩, hkind, cs₂, hcomma, ⟨payload, cs₃⟩, hpayload, rest', hmark, hrest⟩ := h
    cases hrest
    have hcs₂ : ')' :: rest <:+ cs₂ :=
      (isSuffix_of_dropMark? hmark).trans (isSuffix_of_payload? hpayload)
    have hcs₁ : ')' :: rest <:+ cs₁ :=
      (hcs₂.trans (List.suffix_cons ',' cs₂)).trans (isSuffix_of_dropMark? hcomma)
    exact (hcs₁.trans (isSuffix_of_run? hkind)).trans (isSuffix_of_trimStart cs)
  | timestamp =>
    simp only [arguments?, Option.bind_eq_bind, Option.bind_eq_some_iff] at h
    obtain ⟨⟨seconds, cs₁⟩, hseconds, cs₂, hcomma, ⟨increment, cs₃⟩, hincrement, rest', hmark,
      hrest⟩ := h
    cases hrest
    have hcs₂ : ')' :: rest <:+ cs₂ := ((isSuffix_of_dropMark? hmark).trans
      (isSuffix_of_run? hincrement)).trans (isSuffix_of_trimStart cs₂)
    have hcs₁ : ')' :: rest <:+ cs₁ :=
      (hcs₂.trans (List.suffix_cons ',' cs₂)).trans (isSuffix_of_dropMark? hcomma)
    exact (hcs₁.trans (isSuffix_of_run? hseconds)).trans (isSuffix_of_trimStart cs)

/-- A match ends with a closing parenthesis, which is not its first character. -/
theorem isSuffix_of_match? (h : w.match? before (c :: cs) = some (literal, rest)) :
    ')' :: rest <:+ cs := by
  obtain ⟨-, front, gap, args, -, -, hcs, hargs⟩ := match?_eq_some h
  have hwhole : ')' :: rest <:+ c :: cs := (isSuffix_of_arguments? hargs).trans
    ⟨front ++ (w.constructorName ++ (gap ++ ['('])), by simp [hcs]⟩
  -- no match begins at a closing parenthesis
  rcases List.suffix_cons_iff.1 hwhole with hfirst | htail
  · obtain ⟨rfl, -⟩ := List.cons.inj hfirst
    rw [match?_of_not_letter rfl] at h
    cases h
  · exact htail

/-- Whether so many characters of a text are copied, none or up to and with a closing
    parenthesis. -/
def Ends (copying : Nat) (cs : List Char) : Prop :=
  copying = 0 ∨ ∃ rest, ')' :: rest <:+ cs ∧ copying + rest.length = cs.length

theorem Ends.zero (cs : List Char) : Ends 0 cs :=
  .inl rfl

theorem Ends.of_match? (h : w.match? before (c :: cs) = some (literal, rest)) :
    Ends (cs.length - rest.length) cs := by
  have hsuffix := isSuffix_of_match? h
  have hle := hsuffix.length_le
  rw [List.length_cons] at hle
  exact .inr ⟨rest, hsuffix, by omega⟩

theorem Ends.tail (h : Ends (n + 1) (c :: cs)) : Ends n cs := by
  rcases h with hzero | ⟨rest, hsuffix, hlength⟩
  · cases hzero
  rw [List.length_cons] at hlength
  -- either the parenthesis is the character that goes, or it is still to come
  rcases List.suffix_cons_iff.1 hsuffix with hfirst | htail
  · obtain ⟨-, rfl⟩ := List.cons.inj hfirst
    exact .inl (by omega)
  · exact .inr ⟨rest, htail, by omega⟩

/-- The copying does not end after another character. -/
theorem Ends.ne_zero (h : Ends (n + 1) (c :: cs)) (hc : c ≠ ')') : n ≠ 0 := by
  rintro rfl
  rcases h with hzero | ⟨rest, hsuffix, hlength⟩
  · cases hzero
  rw [List.length_cons] at hlength
  rcases List.suffix_cons_iff.1 hsuffix with hfirst | htail
  · exact hc (List.cons.inj hfirst).1.symm
  · have hle := htail.length_le
    rw [List.length_cons] at hle
    omega

/-! ## Texts under one rule -/

/-- Whether what one rule makes of a text has a property, wherever the copying ends. -/
def Turns (w : Wrapper) (z : Zone) (before : Option Char) (cs : List Char)
    (P : List Char → Prop) : Prop :=
  ∀ copying, Ends copying cs → P (w.unwrapFrom z before 0 copying cs)

/-- The same where a match is being copied that has not ended yet. -/
def TurnsCopied (w : Wrapper) (z : Zone) (before : Option Char) (cs : List Char)
    (P : List Char → Prop) : Prop :=
  ∀ copying, Ends (copying + 1) cs → P (w.unwrapFrom z before 0 (copying + 1) cs)

theorem Turns.copied (h : Turns w z before cs P) : TurnsCopied w z before cs P :=
  fun copying => h (copying + 1)

theorem TurnsCopied.cons (hc : c ≠ ')')
    (h : TurnsCopied w (z.next c) (some c) cs fun out => P (c :: out)) :
    TurnsCopied w z before (c :: cs) P := by
  intro copying hends
  obtain ⟨n, rfl⟩ := Nat.exists_eq_succ_of_ne_zero (hends.ne_zero hc)
  rw [unwrapFrom]
  exact h n hends.tail

namespace Turns

variable {last : Option Char}

theorem nil (h : P []) : Turns w z before [] P := by
  intro copying hends
  simpa [unwrapFrom] using h

/-- A character at which nothing is replaced is copied. -/
theorem copy (hmatch : z.isCode = true → w.match? before (c :: cs) = none)
    (h : Turns w (z.next c) (some c) cs fun out => P (c :: out)) :
    Turns w z before (c :: cs) P := by
  rintro (_ | copying) hends
  · cases hfound : w.match? before (c :: cs) with
    | none =>
      rw [unwrapFrom, hfound]
      exact h 0 (.zero cs)
    -- a match in a literal is copied, up to the parenthesis that it ends with
    | some found =>
      obtain ⟨literal, rest⟩ := found
      have hz : z.isCode = false := by
        cases hz : z.isCode with
        | false => rfl
        | true => simp [hmatch hz] at hfound
      simp only [unwrapFrom, hfound, hz, Bool.false_eq_true, if_false]
      exact h _ (.of_match? hfound)
  -- a match from before is being copied, and goes on
  · rw [unwrapFrom]
    exact h copying hends.tail

/-- A literal is copied, whatever it holds. -/
theorem inside {q : Char} (hcs : Inside q z cs)
    (h : Turns w (.code (some q)) (some q) rest fun out => P (cs ++ out)) :
    Turns w z before (cs ++ rest) P := by
  induction hcs generalizing before P with
  | close hz hclose =>
    refine copy (fun hcode => by simp [hz] at hcode) ?_
    rw [hclose]
    exact h
  | cons hz hinside ih => exact copy (fun hcode => by simp [hz] at hcode) (ih h)

/-! ## Code -/

/-- A character that is no letter is copied in code, if it opens no literal. -/
theorem mark (hletter : isAsciiLetter c = false) (hopens : Zone.opensLiteral last c = false)
    (h : Turns w (.code (Zone.lastAfter last c)) (some c) rest fun out => P (c :: out)) :
    Turns w (.code last) before (c :: rest) P := by
  refine copy (fun _ => match?_of_not_letter hletter) ?_
  rwa [Zone.next_code_of_not_opens hopens]

/-- Blanks are copied. No word character is before what follows them. -/
theorem blanks (hgap : Blanks gap) (hbefore : gap = [] → before.any isWord = false)
    (h : ∀ b : Option Char, b.any isWord = false →
      Turns w ((Zone.code last).run gap) b rest fun out => P (gap ++ out)) :
    Turns w (.code last) before (gap ++ rest) P := by
  induction gap generalizing last before P with
  | nil => exact h before (hbefore rfl)
  | cons c gap ih =>
    have hc := hgap c (.head _)
    have hinert := isInert_of_isBlank hc
    refine mark (isAsciiLetter_of_isBlank hc) (opensLiteral_of_isInert hinert) ?_
    refine ih (fun d hd => hgap d (.tail _ hd)) (fun _ => by simpa using isWord_of_isBlank hc) ?_
    rw [← Zone.next_code_of_isInert hinert]
    exact h

/-- Blanks are copied, whatever is before them. -/
theorem space (hgap : Blanks gap)
    (h : ∀ last before, Turns w (.code last) before rest fun out => P (gap ++ out)) :
    Turns w (.code last) before (gap ++ rest) P := by
  induction gap generalizing last before P with
  | nil => exact h last before
  | cons c gap ih =>
    have hc := hgap c (.head _)
    exact mark (isAsciiLetter_of_isBlank hc) (opensLiteral_of_isInert (isInert_of_isBlank hc))
      (ih (fun d hd => hgap d (.tail _ hd)) h)

/-- The letters of a word after its first are copied. -/
theorem word (word : List Char) (hword : ∀ c ∈ word, isAsciiLetter c = true)
    (hbefore : before.any isWord = true)
    (h : ∀ last before, Turns w (.code last) before rest fun out => P (word ++ out)) :
    Turns w (.code last) before (word ++ rest) P := by
  induction word generalizing last before P with
  | nil => exact h last before
  | cons c word ih =>
    have hc := hword c (.head _)
    refine copy (fun _ => match?_of_isWord hbefore) ?_
    rw [Zone.next_code_of_isInert (isInert_of_isAsciiLetter hc)]
    exact ih (fun d hd => hword d (.tail _ hd)) (by simpa using isWord_of_isAsciiLetter hc) h

end Turns

/-! ## What may follow a value -/

/-- What may follow a value: it turns whatever is before it, and no parenthesis comes next. -/
structure Resumes (w : Wrapper) (rest : List Char) (P : List Char → Prop) : Prop where
  turns : ∀ last before, Turns w (.code last) before rest P
  uncalled : Uncalled rest

namespace Resumes

theorem nil (h : P []) : Resumes w [] P :=
  ⟨fun _ _ => .nil h, .nil⟩

theorem mark (hc : c ∈ Ready.punctuation)
    (h : Turns w (.code (some c)) (some c) rest fun out => P (c :: out)) :
    Resumes w (c :: rest) P := by
  obtain ⟨hletter, hblank, hne⟩ : isAsciiLetter c = false ∧ isBlank c = false ∧ c ≠ '(' :=
    (by decide : ∀ d ∈ Ready.punctuation,
      isAsciiLetter d = false ∧ isBlank d = false ∧ d ≠ '(') c hc
  have hopens : ∀ last, Zone.opensLiteral last c = false := by
    intro last
    simp only [Ready.punctuation, List.mem_cons, List.not_mem_nil, or_false] at hc
    rcases hc with rfl | rfl | rfl | rfl | rfl | rfl | rfl <;> rfl
  have hnarrow : ¬ isAsciiBlank c = true := fun hc => by
    simp [isBlank_of_isAsciiBlank hc] at hblank
  refine ⟨fun last before => .mark hletter (hopens last) ?_, .of_head (by simp [hletter, hblank]) hne⟩
  rwa [Zone.lastAfter, if_neg hnarrow]

/-- A stretch of inert characters. -/
theorem inert (hfront : ∀ c ∈ front, isInert c = true)
    (h : Resumes w rest fun out => P (front ++ out)) : Resumes w (front ++ rest) P := by
  induction front generalizing P with
  | nil => exact h
  | cons c front ih =>
    have htail : Resumes w (front ++ rest) fun out => P (c :: out) :=
      ih (fun d hd => hfront d (.tail _ hd)) h
    have hc := hfront c (.head _)
    have hne : c ≠ '(' := by
      rintro rfl
      cases hc
    -- no call begins here: its parenthesis would be the first that follows
    have huncalled : Uncalled (c :: (front ++ rest)) := htail.uncalled.cons hne
    refine ⟨fun last before => .copy (fun _ => match?_of_uncalled huncalled) ?_, huncalled⟩
    rw [Zone.next_code_of_isInert hc]
    exact htail.turns _ _

theorem blanks (hgap : Blanks gap) (h : Resumes w rest fun out => P (gap ++ out)) :
    Resumes w (gap ++ rest) P :=
  h.inert fun c hc => isInert_of_isBlank (hgap c hc)

theorem atom (hcs : Atom cs) (h : Resumes w rest fun out => P (cs ++ out)) :
    Resumes w (cs ++ rest) P := by
  cases hcs with
  | inert hcs => exact h.inert hcs
  | @string q cs hq hinside =>
    have hletter := isAsciiLetter_of_isQuote hq
    constructor
    · intro last before
      refine .copy (fun _ => match?_of_not_letter hletter) ?_
      rw [Zone.next_code_quote hq]
      exact .inside hinside (h.turns _ _)
    · refine .of_head (by simp [hletter, isBlank_of_isQuote hq]) ?_
      rintro rfl
      cases hq

end Resumes

/-! ## Scalars -/

namespace Turns

variable {last : Option Char}

theorem dateWord {word : List Char} (hword : DateWord word)
    (h : ∀ last before, Turns w (.code last) before rest fun out => P (word ++ out)) :
    Turns w (.code last) before (word ++ rest) P := by
  -- no wrapper has a name with the first letter of `Date`
  have hdate : ∀ {Q : List Char → Prop}, (∀ last before, Turns w (.code last) before rest fun out =>
      Q ('D' :: (['a', 't', 'e'] ++ out))) → ∀ last before, Turns w (.code last) before
        ('D' :: (['a', 't', 'e'] ++ rest)) Q := by
    intro Q h last before
    have hmatch : w.match? before ('D' :: (['a', 't', 'e'] ++ rest)) = none :=
      match?_of_head (by decide) (by intro w; cases w <;> simp [constructorName])
    exact copy (fun _ => hmatch) (.word ['a', 't', 'e'] (by decide) (by decide +kernel) h)
  cases hword with
  | call => exact hdate h last before
  | @construct gap hgap =>
    have hnew : Turns w (.code last) before
        ('n' :: (['e', 'w'] ++ (gap ++ 'D' :: (['a', 't', 'e'] ++ rest)))) P :=
      copy (fun _ => match?_new_date hgap _) (.word ['e', 'w'] (by decide) (by decide +kernel)
        fun last before => .space hgap (hdate (by simpa using h)))
    simpa using hnew

/-- A scalar is copied, a regular expression where a value may start. -/
theorem lexeme (hcs : Lexeme cs) (hstart : cs.head? = some '/' → Zone.valueMayStart last = true)
    (h : Resumes w rest fun out => P (cs ++ out)) : Turns w (.code last) before (cs ++ rest) P := by
  cases hcs with
  | atom hcs => exact (h.atom hcs).turns _ _
  -- the slash opens a literal, and the flags after it are code
  | @regex body flags hbody hflags =>
    have hrest : Resumes w (flags ++ rest) fun out => P ('/' :: (body ++ out)) :=
      .inert (fun c hc => isInert_of_isAsciiLetter (hflags c hc)) (by simpa using h)
    rw [List.cons_append, List.append_assoc]
    refine .copy (fun _ => match?_of_not_letter rfl) ?_
    rw [Zone.next_code_slash (hstart rfl)]
    exact .inside hbody (hrest.turns _ _)
  | @date word front left argument right hword hfront hleft hargument hright =>
    have hinner : Resumes w (left ++ (argument ++ (right ++ ')' :: rest))) fun out =>
        P (word ++ (front ++ '(' :: out)) :=
      .blanks hleft (.atom hargument (.blanks hright (.mark (by decide)
        (by simpa using h.turns _ _))))
    have hdate : Turns w (.code last) before
        (word ++ (front ++ '(' :: (left ++ (argument ++ (right ++ ')' :: rest))))) P :=
      .dateWord hword fun last before => .space hfront fun last before =>
        .mark rfl rfl (hinner.turns _ _)
    simpa using hdate

end Turns

end ShellQuery.Wrapper
