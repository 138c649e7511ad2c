/-
  ShellQuery.Proofs.Stability

  Normalized texts. A text that the reader of arguments accepts has no wrapper call in its code: every
  parenthesis there belongs to a date construction. So each rule copies it, piece by piece, as the
  reader takes it; and a list that has been normalized and accepted stays as it is when it is
  normalized again.

  What is code is a question of slashes. After a wide blank the reader finds a regular expression
  where the rules see none, and what the one takes for its body the others take for calls.
-/
import ShellQuery.Proofs.Draft.Structure
import ShellQuery.Proofs.Extent.Agreement
import ShellQuery.Proofs.Grammar.Quoted

namespace ShellQuery

open Text Argument Wrapper

variable {w : Wrapper} {now : Int64} {depth : Nat} {cs rest gap : List Char} {v : Value}
  {last before : Option Char} {P : List Char → Prop}

/-! ## What the readers take is copied -/

/-- What the reader of values takes from a text is copied by a rule. -/
def ValueCopied (w : Wrapper) (now : Int64) (depth : Nat) : Prop :=
  ∀ {cs rest : List Char} {v : Value} {last : Option Char}, beforeValue last = true →
    SlashesSeen (.code last) cs → value now depth cs = .ok (v, rest) →
    ∃ taken, cs = taken ++ rest ∧ ∀ {before : Option Char} {P : List Char → Prop},
      (Resumes w rest fun out => P (taken ++ out)) → Turns w (.code last) before cs P

/-- What the reader of fields takes from a text is copied by a rule, up to the closing brace. -/
def FieldsCopied (w : Wrapper) (now : Int64) (depth : Nat) : Prop :=
  ∀ {read : Document} {cs rest : List Char} {v : Value} {last : Option Char},
    SlashesSeen (.code last) cs → fields now depth read cs = .ok (v, rest) →
    ∃ taken, cs = taken ++ '}' :: rest ∧ ∀ {P : List Char → Prop},
      (Resumes w ('}' :: rest) fun out => P (taken ++ out)) → Resumes w cs P

/-- What the reader of items takes from a text is copied by a rule, up to the closing bracket. -/
def ItemsCopied (w : Wrapper) (now : Int64) (depth : Nat) : Prop :=
  ∀ {read : List Value} {cs rest : List Char} {v : Value} {last before : Option Char},
    beforeValue last = true → before.any isWord = false → SlashesSeen (.code last) cs →
    items now depth read cs = .ok (v, rest) →
    ∃ taken, cs = taken ++ ']' :: rest ∧ ∀ {P : List Char → Prop},
      (Resumes w (']' :: rest) fun out => P (taken ++ out)) → Turns w (.code last) before cs P

/-- The zone after what the reader of values takes. -/
theorem passes_of_value {taken : List Char} (hlast : beforeValue last = true)
    (hseen : SlashesSeen (.code last) cs) (h : value now depth cs = .ok (v, rest))
    (hcs : cs = taken ++ rest) : ∃ last', Passes (.code last) taken (.code last') := by
  obtain ⟨taken', last', hcs', hpass⟩ := (passed_of_read now depth).1 hlast hseen h
  obtain rfl := List.append_cancel_right (hcs.symm.trans hcs')
  exact ⟨last', hpass⟩

/-- Blanks before a value are copied, and a value may still begin after them. -/
theorem turns_blanks_beforeValue (hgap : Blanks gap) (hlast : beforeValue last = true)
    (hbefore : before.any isWord = false)
    (h : ∀ last' before', beforeValue last' = true → Passes (.code last) gap (.code last') →
      Turns w (.code last') before' rest fun out => P (gap ++ out)) :
    Turns w (.code last) before (gap ++ rest) P := by
  obtain ⟨last', hlast', hpass⟩ := passes_of_blanks_beforeValue hlast hgap
  refine .blanks hgap (fun _ => hbefore) fun b _ => ?_
  rw [hpass.run_eq]
  exact h last' b hlast' hpass

theorem valueCopied_succ (hfields : FieldsCopied w now depth) (hitems : ItemsCopied w now depth) :
    ValueCopied w now (depth + 1) := by
  intro cs rest v last hlast hseen h
  cases cs with
  | nil => simp [value] at h
  | cons c cs =>
    simp only [value] at h
    split at h
    · rename_i hc
      subst hc
      -- an object: the brace, the fields, which are copied, and the closing brace
      have hinside : SlashesSeen (.code (some '{')) cs := hseen.cons rfl
      obtain ⟨taken, rfl, hcopied⟩ := hfields hinside h
      refine ⟨'{' :: taken ++ ['}'], by simp, fun {before P} hrest => ?_⟩
      have hclose : Resumes w ('}' :: rest) fun out => P ('{' :: (taken ++ out)) :=
        .mark (by decide) (by simpa using hrest.turns _ _)
      exact (Resumes.mark (c := '{') (by decide) ((hcopied hclose).turns _ _)).turns _ _
    split at h
    · rename_i hc
      subst hc
      -- an array likewise
      have hinside : SlashesSeen (.code (some '[')) cs := hseen.cons rfl
      have hbefore : (some '[').any isWord = false := by decide +kernel
      obtain ⟨taken, rfl, hcopied⟩ := hitems rfl hbefore hinside h
      refine ⟨'[' :: taken ++ [']'], by simp, fun {before P} hrest => ?_⟩
      have hclose : Resumes w (']' :: rest) fun out => P ('[' :: (taken ++ out)) :=
        .mark (by decide) (by simpa using hrest.turns _ _)
      exact (Resumes.mark (c := '[') (by decide) (hcopied hclose)).turns _ _
    · rename_i hbrace hbracket
      -- anything else is one lexeme, which is copied whole
      have hread : value now (depth + 1) (c :: cs) = .ok (v, rest) := by
        simp only [value, hbrace, hbracket, if_false]
        exact h
      obtain ⟨taken, htaken, hlexeme⟩ := lexeme_of_value (by simpa using hbrace)
        (by simpa using hbracket) hread
      -- it starts with a slash only where a regular expression may start
      have hstart : taken.head? = some '/' → Zone.valueMayStart last = true := by
        intro hslash
        obtain ⟨tail, rfl⟩ := List.head?_eq_some_iff.1 hslash
        obtain ⟨rfl, -⟩ := List.cons.inj htaken
        exact valueMayStart_of_seen hlast hseen
      refine ⟨taken, htaken, fun hrest => ?_⟩
      rw [htaken]
      exact .lexeme hlexeme hstart hrest

theorem fieldsCopied_succ (hvalue : ValueCopied w now depth) (hfields : FieldsCopied w now depth) :
    FieldsCopied w now (depth + 1) := by
  intro read cs rest v last hseen h
  obtain ⟨front, hfront, rfl, -⟩ |
    ⟨front, text, name, left, right, body, w', back, c, after, hfront, rfl, hkey, hleft, hright,
      hread, hback, hnext⟩ := fields_eq_ok h
  · exact ⟨front, rfl, fun hrest => .blanks hfront hrest⟩
  · obtain ⟨keyText, rfl, hatom⟩ := atom_of_key hkey
    -- the zone behind the colon does not depend on what is in front of it
    obtain ⟨last₁, hpassFront⟩ := passes_of_blanks last hfront
    obtain ⟨last₂, hpassKey⟩ := hatom.passes last₁
    obtain ⟨last₃, hpassLeft⟩ := passes_of_blanks last₂ hleft
    have hpassColon : Passes (.code last₃) [':'] (.code (some ':')) := .single rfl
    obtain ⟨last₄, hlast₄, hpassRight⟩ := passes_of_blanks_beforeValue
      (rfl : beforeValue (some ':') = true) hright
    have hpassBefore := ((hpassFront.append hpassKey).append hpassLeft).append hpassColon
    have hseenColon : SlashesSeen (.code (some ':')) (right ++ body) :=
      hseen.after hpassBefore (by simp)
    have hseenBody := hseenColon.after hpassRight rfl
    obtain ⟨taken, rfl, hcopied⟩ := hvalue hlast₄ hseenBody hread
    -- from what follows the value back to the beginning
    have hfield : ∀ {P : List Char → Prop}, (Resumes w (back ++ c :: after) fun out =>
        P (front ++ (keyText ++ (left ++ ':' :: (right ++ (taken ++ out)))))) →
        Resumes w (front ++ (keyText ++ (left ++ ':' :: (right ++ (taken ++ (back ++ c :: after))))))
          P := by
      intro P hrest
      refine .blanks hfront (.atom hatom (.blanks hleft (.mark (by decide) ?_)))
      refine turns_blanks_beforeValue hright rfl (by decide +kernel) fun last' before' _ hpass => ?_
      obtain rfl : last' = last₄ := by
        have hzone := hpass.run_eq.symm.trans hpassRight.run_eq
        injection hzone
      exact hcopied hrest
    rcases hnext with ⟨rfl, hmore⟩ | ⟨rfl, rfl, -⟩
    · obtain ⟨last₅, hpassValue⟩ := passes_of_value hlast₄ hseenBody hread rfl
      obtain ⟨last₆, hpassBack⟩ := passes_of_blanks last₅ hback
      have hpassComma := (hpassValue.append hpassBack).append
        (.single rfl : Passes (.code last₆) [','] (.code (some ',')))
      obtain ⟨more, rfl, hcopiedMore⟩ := hfields (hseenBody.after hpassComma (by simp)) hmore
      refine ⟨front ++ (keyText ++ (left ++ ':' :: (right ++ (taken ++ (back ++ ',' :: more))))),
        by simp, fun hrest => hfield (.blanks hback (.mark (by decide) ?_))⟩
      exact (hcopiedMore (by simpa using hrest)).turns _ _
    · refine ⟨front ++ (keyText ++ (left ++ ':' :: (right ++ (taken ++ back)))), by simp,
        fun hrest => hfield (.blanks hback (by simpa using hrest))⟩

theorem itemsCopied_succ (hvalue : ValueCopied w now depth) (hitems : ItemsCopied w now depth) :
    ItemsCopied w now (depth + 1) := by
  intro read cs rest v last before hlast hbefore hseen h
  obtain ⟨front, hfront, rfl, -⟩ |
    ⟨front, body, w', back, c, after, hfront, rfl, hread, hback, hnext⟩ := items_eq_ok h
  · exact ⟨front, rfl, fun hrest => (Resumes.blanks hfront hrest).turns _ _⟩
  · obtain ⟨last₁, hlast₁, hpassFront⟩ := passes_of_blanks_beforeValue hlast hfront
    have hseenBody := hseen.after hpassFront rfl
    obtain ⟨taken, rfl, hcopied⟩ := hvalue hlast₁ hseenBody hread
    have hitem : ∀ {P : List Char → Prop}, (Resumes w (back ++ c :: after) fun out =>
        P (front ++ (taken ++ out))) →
        Turns w (.code last) before (front ++ (taken ++ (back ++ c :: after))) P := by
      intro P hrest
      refine turns_blanks_beforeValue hfront hlast hbefore fun last' before' _ hpass => ?_
      obtain rfl : last' = last₁ := by
        have hzone := hpass.run_eq.symm.trans hpassFront.run_eq
        injection hzone
      exact hcopied hrest
    rcases hnext with ⟨rfl, hmore⟩ | ⟨rfl, rfl, -⟩
    · obtain ⟨last₂, hpassValue⟩ := passes_of_value hlast₁ hseenBody hread rfl
      obtain ⟨last₃, hpassBack⟩ := passes_of_blanks last₂ hback
      have hpassComma := (hpassValue.append hpassBack).append
        (.single rfl : Passes (.code last₃) [','] (.code (some ',')))
      have hcomma : (some ',').any isWord = false := by decide +kernel
      obtain ⟨more, rfl, hcopiedMore⟩ := hitems rfl hcomma (hseenBody.after hpassComma (by simp)) hmore
      exact ⟨front ++ (taken ++ (back ++ ',' :: more)), by simp, fun hrest =>
        hitem (.blanks hback (.mark (by decide) (hcopiedMore (by simpa using hrest))))⟩
    · exact ⟨front ++ (taken ++ back), by simp, fun hrest =>
        hitem (.blanks hback (by simpa using hrest))⟩

/-- What the readers take from a text is copied, by induction on the depth that they are granted. -/
theorem copied_of_read (w : Wrapper) (now : Int64) (depth : Nat) :
    ValueCopied w now depth ∧ FieldsCopied w now depth ∧ ItemsCopied w now depth := by
  induction depth with
  | zero =>
    refine ⟨?_, ?_, ?_⟩
    · intro cs rest v last _ _ h
      simp [value] at h
    · intro read cs rest v last _ h
      simp [fields] at h
    · intro read cs rest v last before _ _ _ h
      simp [items] at h
  | succ depth ih =>
    obtain ⟨hvalue, hfields, hitems⟩ := ih
    exact ⟨valueCopied_succ hfields hitems, fieldsCopied_succ hvalue hfields,
      itemsCopied_succ hvalue hitems⟩

/-- A list of values is copied from end to end. -/
theorem turns_of_values {steps : Nat} {read vs : List Value} (hlast : beforeValue last = true)
    (hbefore : before.any isWord = false) (hseen : SlashesSeen (.code last) cs)
    (h : values now steps read cs = .ok vs) (hP : P cs) : Turns w (.code last) before cs P := by
  induction steps generalizing read cs last before P with
  | zero => simp [values] at h
  | succ steps ih =>
    obtain ⟨hblanks, -⟩ | ⟨front, body, w', back, after, hfront, rfl, hread, hback, hnext⟩ :=
      values_eq_ok h
    · have hend := (Resumes.nil (w := w) (P := fun out => P (cs ++ out)) (by simpa using hP)).blanks
        hblanks
      simpa using hend.turns last before
    · refine turns_blanks_beforeValue hfront hlast hbefore fun last₁ before₁ hlast₁ hpassFront => ?_
      have hseenBody := hseen.after hpassFront rfl
      obtain ⟨taken, rfl, hcopied⟩ := (copied_of_read w now _).1 hlast₁ hseenBody hread
      refine hcopied (.blanks hback ?_)
      rcases hnext with ⟨rfl, -⟩ | ⟨tail, rfl, hmore⟩
      · exact .nil (by simpa using hP)
      · obtain ⟨last₂, hpassValue⟩ := passes_of_value hlast₁ hseenBody hread rfl
        obtain ⟨last₃, hpassBack⟩ := passes_of_blanks last₂ hback
        have hpassComma := (hpassValue.append hpassBack).append
          (.single rfl : Passes (.code last₃) [','] (.code (some ',')))
        exact .mark (by decide) (ih rfl (by decide +kernel)
          (hseenBody.after hpassComma (by simp)) hmore (by simpa using hP))

/-- An accepted text in which every slash is seen is normalized already. -/
theorem normalize_of_parseArguments {vs : List Value} (hseen : SlashesSeen .start cs)
    (h : parseArguments now cs = .ok vs) : normalize cs = cs := by
  refine normalize_eq_self fun w => ?_
  have hturns : Turns w .start none cs fun out => out = cs :=
    turns_of_values rfl rfl hseen h rfl
  exact hturns 0 (.zero cs)

/-! ## Calls between slashes -/

namespace Wrapper

open Shell (Digits Site)
open Grammar (RegexBody)

/-- Calls of `NumberInt` inside each other, around digits. -/
def nested (n : Digits) : Nat → List Char
  | 0 => n.text
  | k + 1 => numberInt.constructorName ++ '(' :: (nested n k ++ [')'])

theorem nested_succ_append (n : Digits) (k : Nat) (rest : List Char) :
    nested n (k + 1) ++ rest = numberInt.constructorName ++ '(' :: (nested n k ++ ')' :: rest) := by
  simp [nested]

/-- A text between slashes, after blanks. -/
def slashed (gap content : List Char) : List Char :=
  gap ++ '/' :: (content ++ ['/'])

theorem length_nested_lt (n : Digits) (k : Nat) : (nested n k).length < (nested n (k + 1)).length := by
  simp only [nested, List.length_append, List.length_cons, List.length_nil]
  omega

theorem regexBody_of_plain (h : ∀ c ∈ cs, c ∉ ['\\', '/', '[']) : RegexBody cs := by
  induction cs with
  | nil => exact .nil
  | cons c cs ih => exact .plain (h c (.head _)) (ih fun d hd => h d (.tail _ hd))

theorem regexBody_nested (n : Digits) (k : Nat) : RegexBody (nested n k) := by
  refine regexBody_of_plain ?_
  induction k with
  | zero =>
    intro c hc hmem
    have hdigit := n.digit c hc
    simp only [List.mem_cons, List.not_mem_nil, or_false] at hmem
    rcases hmem with rfl | rfl | rfl <;> cases hdigit
  | succ k ih =>
    have hname : ∀ c ∈ numberInt.constructorName, c ∉ ['\\', '/', '['] := by decide
    intro c hc
    simp only [nested, List.mem_append, List.mem_cons, List.not_mem_nil, or_false] at hc
    rcases hc with hc | rfl | hc | rfl
    · exact hname c hc
    · decide
    · exact ih c hc
    · decide

/-- The call of `NumberInt` around digits. -/
def integerSite (n : Digits) : Site :=
  ⟨.numberInt ⟨none, false, n, by simp⟩, none, none_ne_nil, noGap, noGap, noGap⟩

theorem nested_one_append (n : Digits) (rest : List Char) :
    nested n 1 ++ rest = (integerSite n).text ++ rest := by
  simp [nested, integerSite, Site.text, Site.front, Site.arguments, Shell.Call.wrapper,
    Shell.Call.inner, Shell.Whole.text, Shell.Whole.literal, noGap]

section
variable {m : Prop} {args args' rest' : List Char}

/-- The name and the opening parenthesis of a call are copied, if the rule does not take what comes
    after them. -/
theorem Settled.opened (x : Wrapper) (hbefore : before.any isWord = false)
    (hnone : w.constructorName = x.constructorName → w.arguments? args = none)
    (h : Settled w m (.code (some '(')) (some '(') args args') :
    Settled w m (.code last) before (x.constructorName ++ '(' :: args)
      (x.constructorName ++ '(' :: args') := by
  have hmatch : w.match? before (x.constructorName ++ '(' :: args) = none := by
    have hcall := match?_call w x hbefore .nil .nil args
    rw [List.nil_append, List.nil_append] at hcall
    rw [hcall]
    split
    · exact hnone ‹_›
    · rfl
  obtain ⟨c, name, hname⟩ := List.exists_cons_of_ne_nil (constructorName_ne_nil x)
  have hletters : ∀ d ∈ c :: name, isAsciiLetter d = true :=
    hname ▸ isAsciiLetter_of_mem_constructorName x
  rw [hname] at hmatch ⊢
  refine .copy hmatch ?_
  rw [Zone.next_code_of_isInert (isInert_of_isAsciiLetter (hletters c (.head _)))]
  refine .word name (fun d hd => hletters d (.tail _ hd)) ?_ fun last before => .mark rfl rfl h
  simpa using isWord_of_isAsciiLetter (hletters c (.head _))

theorem Settled.closing (h : ∀ before, Settled w m (.code (some ')')) before rest rest')
    (before : Option Char) :
    Settled w m (.code (some ')')) before (')' :: rest) (')' :: rest') :=
  .mark rfl rfl (h _)

theorem isWord_opening : (some '(').any isWord = false := by
  decide +kernel

/-- The rules of other names copy calls of `NumberInt`. -/
theorem Settled.nested_of_ne (n : Digits) (k : Nat) (hw : w.constructorName ≠ numberInt.constructorName)
    (hbefore : before.any isWord = false)
    (h : ∀ before, Settled w m (.code (some ')')) before rest rest') :
    Settled w m (.code last) before (nested n k ++ ')' :: rest) (nested n k ++ ')' :: rest') := by
  induction k generalizing last before rest rest' with
  | zero => exact ((Ready.mark (by decide) (h _)).inert (inert_of_digits n)).settled _ _
  | succ k ih =>
    rw [nested_succ_append, nested_succ_append]
    exact .opened numberInt hbefore (fun hname => absurd hname hw) (ih isWord_opening (.closing h))

/-- The rule of `NumberInt` takes the innermost of its calls. -/
theorem Settled.nested (n : Digits) (k : Nat) (hbefore : before.any isWord = false)
    (h : ∀ before, Settled numberInt False (.code (some ')')) before rest rest') :
    Settled numberInt False (.code last) before (Wrapper.nested n (k + 1) ++ rest)
      (Wrapper.nested n k ++ rest') := by
  induction k generalizing last before rest rest' with
  | zero =>
    rw [nested_one_append]
    exact .site_closing (integerSite n) False.elim hbefore h
  | succ k ih =>
    have hnone : ∀ cs, numberInt.arguments? (numberInt.constructorName ++ cs) = none := fun cs => rfl
    rw [nested_succ_append n (k + 1), nested_succ_append n k rest']
    refine .opened numberInt hbefore (fun _ => ?_) (ih isWord_opening (.closing h))
    rw [nested_succ_append, hnone]

end

/-- After a wide blank, normalizing takes one of the calls between slashes. -/
theorem normalize_nested (hgap : Blanks gap) (hwide : ∃ c ∈ gap, isAsciiBlank c = false) (n : Digits)
    (k : Nat) : normalize (slashed gap (nested n (k + 1))) = slashed gap (nested n k) := by
  obtain ⟨last, hrun, hslash⟩ := opensLiteral_of_wide hgap hwide
  have hbefore : (some '/').any isWord = false := by decide +kernel
  -- the slashes are copied, and what is between them is code
  have hslashed : ∀ {w : Wrapper} {content content' : List Char},
      (∀ last, Settled w False (.code last) (some '/') (content ++ ['/']) (content' ++ ['/'])) →
        w.unwrap (slashed gap content) = slashed gap content' := by
    intro w content content' h
    refine Settled.unwrap_eq (m := False) (.blanks hgap (fun _ => rfl) fun before _ => ?_)
    rw [hrun]
    exact .mark rfl hslash (h _)
  have hend : ∀ {w : Wrapper} before, Settled w False (.code (some ')')) before ['/'] ['/'] :=
    fun before => .mark rfl rfl .nil
  have hown : numberInt.unwrap (slashed gap (nested n (k + 1))) = slashed gap (nested n k) :=
    hslashed fun last => .nested n k hbefore hend
  have hother : ∀ w : Wrapper, w ≠ numberInt → ∀ k,
      w.unwrap (slashed gap (nested n k)) = slashed gap (nested n k) := by
    intro w hw k
    have hname : w.constructorName ≠ numberInt.constructorName := by
      cases w <;> first | exact absurd rfl hw | decide
    cases k with
    | zero =>
      have hblank : '(' ∉ gap := fun hmem => by cases hgap _ hmem
      have hdigits : '(' ∉ n.text := fun hmem => by cases n.digit _ hmem
      exact Draft.unwrap_of_not_mem (by simp [slashed, nested, hblank, hdigits])
    | succ k =>
      refine hslashed fun last => ?_
      rw [nested_succ_append]
      exact .opened numberInt hbefore (fun heq => absurd heq hname)
        (.nested_of_ne n k hname isWord_opening hend)
  simp [normalize, all, hown, hother]

/-- Between slashes, calls are the body of a regular expression. -/
theorem parseArguments_nested (now : Int64) (hgap : Blanks gap) (n : Digits) (k : Nat) :
    parseArguments now (slashed gap (nested n k)) =
      .ok [.regex (.ofList (nested n k)) ""] := by
  have hliteral : Grammar.RegexLiteral ('/' :: (nested n k ++ '/' :: []))
      (.regex (.ofList (nested n k)) (.ofList [])) :=
    .slashes (regexBody_nested n k) (by simp) (by simp) .nil
  have hread : readValue now ('/' :: (nested n k ++ ['/'])) =
      .ok (.regex (.ofList (nested n k)) "", []) := by
    simp only [readValue, value]
    exact hliteral.read.2
  exact values_last hgap hread .nil

end Wrapper

/-! ## Accepted texts -/

open Wrapper

/--
Normalizing an accepted text a second time leaves it as it is, and so the values that are read from
it, if no slash met in the code of the normalized text has a wide blank as the last character before
it. The condition cannot be dropped. After blanks with a wide one among them, a regular expression
that holds calls of `NumberInt` inside each other is accepted, and each time that it is normalized
it loses one of them.
-/
theorem normalize_of_parseShellArguments (now : Int64) :
    (∀ cs vs, parseShellArguments now cs = .ok vs → SlashesSeen .start (normalize cs) →
      normalize (normalize cs) = normalize cs ∧ parseShellArguments now (normalize cs) = .ok vs) ∧
    (∀ (gap : List Char) (n : Shell.Digits) (k : Nat), Blanks gap →
      (∃ c ∈ gap, isAsciiBlank c = false) →
      let cs := slashed gap (nested n (k + 2))
      parseShellArguments now cs = .ok [.regex (.ofList (nested n (k + 1))) ""] ∧
        parseShellArguments now (normalize cs) = .ok [.regex (.ofList (nested n k)) ""] ∧
        normalize (normalize cs) ≠ normalize cs) := by
  constructor
  · intro cs vs h hseen
    have hstable := normalize_of_parseArguments hseen h
    refine ⟨hstable, ?_⟩
    rw [parseShellArguments, hstable]
    exact h
  · intro gap n k hgap hwide cs
    have hfirst : normalize cs = slashed gap (nested n (k + 1)) := normalize_nested hgap hwide n _
    have hsecond := normalize_nested hgap hwide n k
    refine ⟨?_, ?_, ?_⟩
    · rw [parseShellArguments, hfirst, parseArguments_nested now hgap]
    · rw [parseShellArguments, hfirst, hsecond, parseArguments_nested now hgap]
    · intro heq
      rw [hfirst, hsecond] at heq
      have hlength := congrArg List.length heq
      have hlt := length_nested_lt n k
      simp only [slashed, List.length_append, List.length_cons] at hlength
      omega

theorem normalize_of_parseShellArguments_sample :
    normalize (normalize "\x7b_id: ObjectId('a'), r: /[(]NumberInt(5)/, n: NumberInt(5)\x7d".toList) =
      normalize "\x7b_id: ObjectId('a'), r: /[(]NumberInt(5)/, n: NumberInt(5)\x7d".toList ∧
    parseShellArguments 0 "\u00a0/NumberInt(NumberInt(5))/".toList =
      .ok [.regex "NumberInt(5)" ""] ∧
    parseShellArguments 0 (normalize "\u00a0/NumberInt(NumberInt(5))/".toList) =
      .ok [.regex "5" ""] := by
  obtain ⟨hstable, hunstable⟩ := normalize_of_parseShellArguments 0
  constructor
  · obtain ⟨vs, hvs⟩ := exists_of_isOk (by decide +kernel : (parseShellArguments 0
      "\x7b_id: ObjectId('a'), r: /[(]NumberInt(5)/, n: NumberInt(5)\x7d".toList).isOk = true)
    exact (hstable _ vs hvs (slashesSeen_of_narrow rfl (by decide +kernel))).1
  · have hgap : Blanks ['\u00a0'] := List.forall_mem_singleton.2 rfl
    obtain ⟨five, hfive⟩ : ∃ n : Shell.Digits, n.text = ['5'] := ⟨⟨['5'], by simp, by decide⟩, rfl⟩
    obtain ⟨hfirst, hsecond, -⟩ := hunstable ['\u00a0'] five 0 hgap ⟨_, .head _, by decide⟩
    simp only [slashed, nested, hfive] at hfirst hsecond
    exact ⟨hfirst, hsecond⟩

end ShellQuery
