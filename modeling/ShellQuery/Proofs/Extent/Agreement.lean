/-
  ShellQuery.Proofs.Extent.Agreement

  The search for a closing delimiter and the reader of arguments agree on where the arguments of a
  call end. What the reader takes for a value, the fields of an object or the items of an array is
  a passage of the search; so a text that it accepts is passed from end to end, and the delimiter
  after it closes the call.

  The two skip different blanks before a slash: the reader every blank, the search only the narrow
  ones. Where a wide blank stands last before a regular expression, the search takes its slash for
  code and what it holds for delimiters. That is the one way in which they part.
-/
import ShellQuery.Proofs.Extent.Passage

namespace ShellQuery

open Text Argument

/-! ## Where a value begins -/

/-- The character before a value, narrow blanks aside: one after which a slash opens a regular
    expression, or a wide blank. -/
def beforeValue : Option Char → Bool
  | none => true
  | some c => Zone.valueMayStart (some c) || isBlank c

theorem beforeValue_lastAfter {last : Option Char} {c : Char} (h : beforeValue last = true)
    (hc : isBlank c = true) : beforeValue (Zone.lastAfter last c) = true := by
  simp only [Zone.lastAfter]
  split
  · exact h
  · simp [beforeValue, hc]

/-- Blanks before a value are passed, and a value may still begin after them. -/
theorem passes_of_blanks_beforeValue {last : Option Char} {cs : List Char}
    (h : beforeValue last = true) (hcs : Blanks cs) :
    ∃ last', beforeValue last' = true ∧ Passes (.code last) cs (.code last') := by
  induction cs generalizing last with
  | nil => exact ⟨last, h, .nil _⟩
  | cons c cs ih =>
    have hc := hcs c (.head _)
    obtain ⟨last', hlast', hpass⟩ := ih (beforeValue_lastAfter h hc) fun d hd => hcs d (.tail _ hd)
    exact ⟨last', hlast', .cons_isInert (isInert_of_isBlank hc) hpass⟩

/-- A slash that begins a value is seen where no wide blank stands before it. -/
theorem valueMayStart_of_seen {last : Option Char} {cs : List Char} (h : beforeValue last = true)
    (hseen : SlashesSeen (.code last) ('/' :: cs)) : Zone.valueMayStart last = true := by
  cases last with
  | none => rfl
  | some b =>
    have hb := hseen [] cs b rfl rfl
    simpa [beforeValue, hb] using h

/-! ## What the readers take -/

section
variable {now : Int64} {depth : Nat}

/-- What the reader of values takes from a text is passed. -/
def ValuePassed (now : Int64) (depth : Nat) : Prop :=
  ∀ {cs rest : List Char} {v : Value} {last : Option Char}, beforeValue last = true →
    SlashesSeen (.code last) cs → value now depth cs = .ok (v, rest) →
    ∃ taken last', cs = taken ++ rest ∧ Passes (.code last) taken (.code last')

/-- What the reader of fields takes from a text is passed, up to the closing brace. -/
def FieldsPassed (now : Int64) (depth : Nat) : Prop :=
  ∀ {read : Document} {cs rest : List Char} {v : Value} {last : Option Char},
    SlashesSeen (.code last) cs → fields now depth read cs = .ok (v, rest) →
    ∃ taken last', cs = taken ++ '}' :: rest ∧ Passes (.code last) taken (.code last')

/-- What the reader of items takes from a text is passed, up to the closing bracket. -/
def ItemsPassed (now : Int64) (depth : Nat) : Prop :=
  ∀ {read : List Value} {cs rest : List Char} {v : Value} {last : Option Char},
    beforeValue last = true → SlashesSeen (.code last) cs →
    items now depth read cs = .ok (v, rest) →
    ∃ taken last', cs = taken ++ ']' :: rest ∧ Passes (.code last) taken (.code last')

theorem valuePassed_succ (hfields : FieldsPassed now depth) (hitems : ItemsPassed now depth) :
    ValuePassed now (depth + 1) := by
  intro cs rest v last hlast hseen h
  cases cs with
  | nil => simp [value] at h
  | cons c cs =>
    simp only [value] at h
    split at h
    · rename_i hc
      subst hc
      -- an object is passed from brace to brace
      have hinside : SlashesSeen (.code (some '{')) cs := hseen.cons rfl
      obtain ⟨taken, last', rfl, hpass⟩ := hfields hinside h
      exact ⟨'{' :: taken ++ ['}'], some '}', by simp, .enclosed last rfl rfl hpass⟩
    split at h
    · rename_i hc
      subst hc
      -- an array from bracket to bracket
      have hinside : SlashesSeen (.code (some '[')) cs := hseen.cons rfl
      obtain ⟨taken, last', rfl, hpass⟩ := hitems rfl hinside h
      exact ⟨'[' :: taken ++ [']'], some ']', by simp, .enclosed last rfl rfl hpass⟩
    · rename_i hbrace hbracket
      -- anything else is one lexeme, and the zones pass it whole
      have hread : value now (depth + 1) (c :: cs) = .ok (v, rest) := by
        simp only [value, hbrace, hbracket, if_false]
        exact h
      obtain ⟨taken, htaken, hlexeme⟩ := lexeme_of_value (by simpa using hbrace)
        (by simpa using hbracket) hread
      have hstart : taken.head? = some '/' → Zone.valueMayStart last = true := by
        intro hslash
        obtain ⟨tail, rfl⟩ := List.head?_eq_some_iff.1 hslash
        obtain ⟨rfl, -⟩ := List.cons.inj htaken
        exact valueMayStart_of_seen hlast hseen
      obtain ⟨last', hpass⟩ := hlexeme.passes hstart
      exact ⟨taken, last', htaken, hpass⟩

theorem fieldsPassed_succ (hvalue : ValuePassed now depth) (hfields : FieldsPassed now depth) :
    FieldsPassed now (depth + 1) := by
  intro read cs rest v last hseen h
  obtain ⟨front, hfront, rfl, -⟩ |
    ⟨front, text, name, left, right, body, w, back, c, after, hfront, rfl, hkey, hleft, hright,
      hread, hback, hnext⟩ := fields_eq_ok h
  · obtain ⟨last', hpass⟩ := passes_of_blanks last hfront
    exact ⟨front, last', rfl, hpass⟩
  · -- everything up to the value
    obtain ⟨last₁, hpassFront⟩ := passes_of_blanks last hfront
    obtain ⟨keyText, rfl, hatom⟩ := atom_of_key hkey
    obtain ⟨last₂, hpassKey⟩ := hatom.passes last₁
    obtain ⟨last₃, hpassLeft⟩ := passes_of_blanks last₂ hleft
    have hpassColon : Passes (.code last₃) [':'] (.code (some ':')) := .single rfl
    obtain ⟨last₄, hlast₄, hpassRight⟩ := passes_of_blanks_beforeValue
      (rfl : beforeValue (some ':') = true) hright
    have hpassBefore := (((hpassFront.append hpassKey).append hpassLeft).append hpassColon).append
      hpassRight
    have htext : front ++ (keyText ++ (left ++ ':' :: (right ++ body))) =
        front ++ keyText ++ left ++ [':'] ++ right ++ body := by simp
    rw [htext] at hseen ⊢
    -- the value, and what follows it
    obtain ⟨taken, last₅, rfl, hpassValue⟩ := hvalue hlast₄ (hseen.after hpassBefore rfl) hread
    obtain ⟨last₆, hpassBack⟩ := passes_of_blanks last₅ hback
    have hpassed := (hpassBefore.append hpassValue).append hpassBack
    rcases hnext with ⟨rfl, hmore⟩ | ⟨rfl, rfl, -⟩
    · have hpassComma := hpassed.append (.single (c := ',') rfl)
      obtain ⟨more, last₇, rfl, hpassMore⟩ := hfields (hseen.after hpassComma (by simp)) hmore
      exact ⟨_, last₇, by simp, hpassComma.append hpassMore⟩
    · exact ⟨_, last₆, by simp, hpassed⟩

theorem itemsPassed_succ (hvalue : ValuePassed now depth) (hitems : ItemsPassed now depth) :
    ItemsPassed now (depth + 1) := by
  intro read cs rest v last hlast hseen h
  obtain ⟨front, hfront, rfl, -⟩ |
    ⟨front, body, w, back, c, after, hfront, rfl, hread, hback, hnext⟩ := items_eq_ok h
  · obtain ⟨last', hpass⟩ := passes_of_blanks last hfront
    exact ⟨front, last', rfl, hpass⟩
  · obtain ⟨last₁, hlast₁, hpassFront⟩ := passes_of_blanks_beforeValue hlast hfront
    obtain ⟨taken, last₂, rfl, hpassValue⟩ := hvalue hlast₁ (hseen.after hpassFront rfl) hread
    obtain ⟨last₃, hpassBack⟩ := passes_of_blanks last₂ hback
    have hpassed := (hpassFront.append hpassValue).append hpassBack
    rcases hnext with ⟨rfl, hmore⟩ | ⟨rfl, rfl, -⟩
    · have hpassComma := hpassed.append (.single (c := ',') rfl)
      obtain ⟨more, last₄, rfl, hpassMore⟩ := hitems rfl (hseen.after hpassComma (by simp)) hmore
      exact ⟨_, last₄, by simp, hpassComma.append hpassMore⟩
    · exact ⟨_, last₃, by simp, hpassed⟩

/-- What the readers take from a text is passed, by induction on the depth that they are granted. -/
theorem passed_of_read (now : Int64) (depth : Nat) :
    ValuePassed now depth ∧ FieldsPassed now depth ∧ ItemsPassed now depth := by
  induction depth with
  | zero =>
    refine ⟨?_, ?_, ?_⟩
    · intro cs rest v last _ _ h
      simp [value] at h
    · intro read cs rest v last _ h
      simp [fields] at h
    · intro read cs rest v last _ _ h
      simp [items] at h
  | succ depth ih =>
    obtain ⟨hvalue, hfields, hitems⟩ := ih
    exact ⟨valuePassed_succ hfields hitems, fieldsPassed_succ hvalue hfields,
      itemsPassed_succ hvalue hitems⟩

/-- A list of values is passed from end to end. -/
theorem passes_of_values {steps : Nat} {read vs : List Value} {cs : List Char}
    {last : Option Char} (hlast : beforeValue last = true) (hseen : SlashesSeen (.code last) cs)
    (h : values now steps read cs = .ok vs) : ∃ last', Passes (.code last) cs (.code last') := by
  induction steps generalizing read cs last with
  | zero => simp [values] at h
  | succ steps ih =>
    obtain ⟨hblanks, -⟩ | ⟨front, body, w, back, after, hfront, rfl, hread, hback, hnext⟩ :=
      values_eq_ok h
    · exact passes_of_blanks last hblanks
    · obtain ⟨last₁, hlast₁, hpassFront⟩ := passes_of_blanks_beforeValue hlast hfront
      obtain ⟨taken, last₂, rfl, hpassValue⟩ :=
        (passed_of_read now _).1 hlast₁ (hseen.after hpassFront rfl) hread
      obtain ⟨last₃, hpassBack⟩ := passes_of_blanks last₂ hback
      have hpassed := hpassFront.append (hpassValue.append hpassBack)
      rcases hnext with ⟨rfl, -⟩ | ⟨tail, rfl, hmore⟩
      · exact ⟨last₃, by simpa using hpassed⟩
      · have hpassComma := hpassed.append (.single (c := ',') rfl)
        obtain ⟨last₄, hpassMore⟩ := ih rfl (hseen.after hpassComma (by simp)) hmore
        exact ⟨last₄, by simpa using hpassComma.append hpassMore⟩

end

/-! ## Texts without wide blanks -/

/-- A zone whose last character, or whose delimiter, is no blank. -/
def Zone.remembersNoBlank : Zone → Bool
  | .code last => !last.any isBlank
  | .literal d _ | .escaped d _ => !isBlank d

theorem Zone.remembersNoBlank_next {z : Zone} {c : Char} (hz : z.remembersNoBlank = true)
    (hc : isBlank c = true → isAsciiBlank c = true) : (z.next c).remembersNoBlank = true := by
  cases z with
  | code last =>
    simp only [next]
    split
    · rename_i hopens
      simp only [opensLiteral, Bool.or_eq_true, Bool.and_eq_true, decide_eq_true_eq] at hopens
      rcases hopens with (rfl | rfl) | ⟨rfl, -⟩ <;> rfl
    split
    · exact hz
    · rename_i hnarrow
      cases hb : isBlank c with
      | false => simp [remembersNoBlank, hb]
      | true => exact absurd (hc hb) hnarrow
  | literal d inClass =>
    simp only [next]
    split <;> try exact hz
    split <;> try exact hz
    split <;> try exact hz
    split
    · simpa [remembersNoBlank] using hz
    · exact hz
  | escaped d inClass => exact hz

/-- In a text without wide blanks every slash is seen. -/
theorem slashesSeen_of_narrow {z : Zone} {cs : List Char} (hz : z.remembersNoBlank = true)
    (hcs : ∀ c ∈ cs, isBlank c = true → isAsciiBlank c = true) : SlashesSeen z cs := by
  intro before after b htext hrun
  have hbefore : (z.run before).remembersNoBlank = true := by
    have hall : ∀ c ∈ before, isBlank c = true → isAsciiBlank c = true := fun c hc =>
      hcs c (by simp [htext, hc])
    clear htext hrun
    induction before generalizing z with
    | nil => exact hz
    | cons c before ih =>
      exact ih (Zone.remembersNoBlank_next hz (hall c (.head _))) fun d hd => hall d (.tail _ hd)
  rw [hrun] at hbefore
  simpa [Zone.remembersNoBlank] using hbefore

/-! ## The extent of a call -/

/--
An accepted argument text in which no slash stands after a wide blank is cut out whole, whatever
follows its parenthesis. The condition cannot be dropped for any wide blank: after it the regular
expression `/)/` is accepted by the reader and cut in two by the search.
-/
theorem close_of_parseArguments (now : Int64) :
    (∀ text vs, parseArguments now text = .ok vs → SlashesSeen (.code (some '(')) text →
      ∀ rest, close? (text ++ ')' :: rest) = some ⟨text, ')', rest⟩) ∧
    (∀ b, isBlank b = true → isAsciiBlank b = false →
      parseArguments now [b, '/', ')', '/'] = .ok [.regex ")" ""] ∧
      ∀ rest, close? ([b, '/', ')', '/'] ++ ')' :: rest) =
        some ⟨[b, '/'], ')', '/' :: ')' :: rest⟩) := by
  constructor
  · intro text vs h hseen rest
    -- the search is in code again behind the text, so it stops at the parenthesis
    obtain ⟨last, hpass⟩ := passes_of_values rfl hseen h
    have hclose : closeFrom? (.code last) 0 (')' :: rest) = some ⟨[], ')', rest⟩ := by
      simp [closeFrom?, Zone.isCode, isOpener, isCloser]
    rw [close?, hpass.close_eq, hclose]
    simp [Closed.prepend]
  · intro b hb hwide
    constructor
    · -- the reader skips the wide blank and sees a regular expression
      have htrim : trimStart [b, '/', ')', '/'] = ['/', ')', '/'] := by
        simp [trimStart, hb]
        rfl
      have hread : readValue now ['/', ')', '/'] = .ok (.regex ")" "", []) := rfl
      simp only [parseArguments, values, htrim, hread]
      rfl
    · intro rest
      -- the search does not: the slash behind it is an operator, and the parenthesis closes
      have hinert := isInert_of_isBlank hb
      have hnext : (Zone.code (some '(')).next b = .code (some b) := by
        rw [Zone.next_code_of_isInert hinert, Zone.lastAfter, hwide]
        rfl
      have hslash : (Zone.code (some b)).next '/' = .code (some '/') := by
        have hne : ∀ d : Char, isBlank d = false → b ≠ d := by
          rintro d hd rfl
          simp [hb] at hd
        simp [Zone.next, Zone.opensLiteral, Zone.valueMayStart, isAsciiBlank, hne '(' rfl,
          hne ',' rfl, hne ':' rfl, hne '[' rfl]
      have hopener := isOpener_of_isInert hinert
      have hcloser := isCloser_of_isInert hinert
      simp [close?, closeFrom?, hopener, hcloser, hnext, hslash, Zone.isCode, Closed.push,
        (by decide : isOpener '/' = false), (by decide : isCloser '/' = false),
        (by decide : isOpener ')' = false), (by decide : isCloser ')' = true)]

theorem close_of_parseArguments_nested :
    ∀ rest, close? ("\x7ba: [/[)]\\//i, 'x)'], b: new Date(0)\x7d".toList ++ ')' :: rest) =
      some ⟨"\x7ba: [/[)]\\//i, 'x)'], b: new Date(0)\x7d".toList, ')', rest⟩ := by
  obtain ⟨vs, hvs⟩ := exists_of_isOk (by decide +kernel :
    (parseArguments 0 "\x7ba: [/[)]\\//i, 'x)'], b: new Date(0)\x7d".toList).isOk = true)
  exact (close_of_parseArguments 0).1 _ vs hvs (slashesSeen_of_narrow rfl (by decide))

end ShellQuery
