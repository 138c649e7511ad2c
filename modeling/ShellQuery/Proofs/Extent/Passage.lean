/-
  ShellQuery.Proofs.Extent.Passage

  Stretches of text that the search for a closing delimiter passes over. `Passes z cs z'` says that
  a search in zone `z` copies `cs` and goes on in zone `z'` at the depth it had, whatever follows.
  Passages compose; a literal is passed whatever it holds, a balanced pair of delimiters is passed
  where its inside is, and so every scalar is passed.

  A slash is the one character whose reading hangs on what stands before it. `SlashesSeen` says
  that no slash met in code has a wide blank as the last character before it.
-/
import ShellQuery.Bracket
import ShellQuery.Proofs.Lexeme

namespace ShellQuery

open Text

/-! ## Characters in code -/

theorem isOpener_of_isInert {c : Char} (h : isInert c = true) : isOpener c = false := by
  simp [isInert, marks] at h
  simp [isOpener, h]

theorem isCloser_of_isInert {c : Char} (h : isInert c = true) : isCloser c = false := by
  simp [isInert, marks] at h
  simp [isCloser, h]

theorem opensLiteral_of_isInert {last : Option Char} {c : Char} (h : isInert c = true) :
    Zone.opensLiteral last c = false := by
  simp [isInert, marks] at h
  simp [Zone.opensLiteral, h]

namespace Zone

theorem next_code_of_not_opens {last : Option Char} {c : Char} (h : opensLiteral last c = false) :
    (Zone.code last).next c = .code (lastAfter last c) := by
  simp only [next, h, lastAfter, Bool.false_eq_true, if_false]
  split <;> rfl

theorem next_code_of_isInert {last : Option Char} {c : Char} (h : isInert c = true) :
    (Zone.code last).next c = .code (lastAfter last c) :=
  next_code_of_not_opens (opensLiteral_of_isInert h)

theorem next_code_opener {last : Option Char} {c : Char} (h : isOpener c = true) :
    (Zone.code last).next c = .code (some c) := by
  simp only [isOpener, Bool.or_eq_true, decide_eq_true_eq] at h
  rcases h with (rfl | rfl) | rfl <;> simp [next, opensLiteral, isAsciiBlank]

theorem next_code_closer {last : Option Char} {c : Char} (h : isCloser c = true) :
    (Zone.code last).next c = .code (some c) := by
  simp only [isCloser, Bool.or_eq_true, decide_eq_true_eq] at h
  rcases h with (rfl | rfl) | rfl <;> simp [next, opensLiteral, isAsciiBlank]

/-- After narrow blanks the last character is the one before them, after others a blank. -/
theorem run_blanks {gap : List Char} (hgap : Blanks gap) (last : Option Char) :
    ∃ last', (code last).run gap = code last' ∧
      ((∀ c ∈ gap, isAsciiBlank c = true) → last' = last) ∧
      ((∃ c ∈ gap, isAsciiBlank c = false) → ∃ b, isBlank b = true ∧ last' = some b) := by
  induction gap generalizing last with
  | nil => exact ⟨last, rfl, fun _ => rfl, by simp⟩
  | cons c gap ih =>
    have hc := hgap c (.head _)
    have hrun : (code last).run (c :: gap) = (code (lastAfter last c)).run gap := by
      rw [run, List.foldl_cons, next_code_of_isInert (isInert_of_isBlank hc)]
      rfl
    obtain ⟨last', htail, hnarrow, hwide⟩ := ih (fun d hd => hgap d (.tail _ hd)) (lastAfter last c)
    refine ⟨last', hrun.trans htail, fun hall => ?_, fun ⟨d, hd, hdwide⟩ => ?_⟩
    · rw [hnarrow fun d hd => hall d (.tail _ hd), lastAfter, if_pos (hall c (.head _))]
    · by_cases htailWide : ∃ d ∈ gap, isAsciiBlank d = false
      · exact hwide htailWide
      · have hall : ∀ e ∈ gap, isAsciiBlank e = true := by simpa using htailWide
        have hcwide : isAsciiBlank c = false := by
          rcases List.mem_cons.1 hd with rfl | hd
          · exact hdwide
          · simp [hall d hd] at hdwide
        exact ⟨c, hc, by rw [hnarrow hall, lastAfter, if_neg (by simp [hcwide])]⟩

end Zone

/-! ## Passages -/

/-- A cut with a text in front of it. -/
def Closed.prepend (cs : List Char) (cut : Closed) : Closed :=
  { cut with inside := cs ++ cut.inside }

@[simp] theorem Closed.prepend_nil (cut : Closed) : cut.prepend [] = cut := rfl

@[simp] theorem Closed.prepend_prepend (as bs : List Char) (cut : Closed) :
    (cut.prepend bs).prepend as = cut.prepend (as ++ bs) := by
  simp [prepend]

/-- A search in zone `z` copies the text and goes on in zone `z'`, at the depth it had. -/
structure Passes (z : Zone) (cs : List Char) (z' : Zone) : Prop where
  run_eq : z.run cs = z'
  close_eq : ∀ depth rest,
    closeFrom? z depth (cs ++ rest) = (closeFrom? z' depth rest).map (.prepend cs)

namespace Passes

variable {z z' z'' : Zone} {as bs cs : List Char}

theorem nil (z : Zone) : Passes z [] z :=
  ⟨rfl, fun depth rest => by
    rw [List.nil_append]
    cases closeFrom? z depth rest <;> rfl⟩

theorem append (h : Passes z as z') (h' : Passes z' bs z'') : Passes z (as ++ bs) z'' := by
  refine ⟨by rw [Zone.run_append, h.run_eq, h'.run_eq], fun depth rest => ?_⟩
  rw [List.append_assoc, h.close_eq, h'.close_eq, Option.map_map]
  congr 1
  funext cut
  simp

/-- A character that is no delimiter in code is passed. -/
theorem single {c : Char} (h : (z.isCode && (isOpener c || isCloser c)) = false) :
    Passes z [c] (z.next c) := by
  refine ⟨rfl, fun depth rest => ?_⟩
  have hopen : (z.isCode && isOpener c) = false := by
    cases hz : z.isCode <;> simp_all
  have hclose : (z.isCode && isCloser c) = false := by
    cases hz : z.isCode <;> simp_all
  simp only [List.cons_append, List.nil_append, closeFrom?, hopen, hclose]
  rfl

theorem cons {c : Char} (h : (z.isCode && (isOpener c || isCloser c)) = false)
    (h' : Passes (z.next c) cs z') : Passes z (c :: cs) z' :=
  (single h).append h'

/-- Inside a literal every character is passed. -/
theorem cons_literal {c : Char} (hz : z.isCode = false) (h : Passes (z.next c) cs z') :
    Passes z (c :: cs) z' :=
  cons (by simp [hz]) h

/-- The rest of a literal is passed, whatever it holds. -/
theorem of_inside {q : Char} (h : Inside q z cs) : Passes z cs (.code (some q)) := by
  induction h with
  | close hz hclose => exact hclose ▸ single (by simp [hz])
  | cons hz hrest ih => exact cons_literal hz ih

theorem cons_isInert {last : Option Char} {c : Char} (hc : isInert c = true)
    (h : Passes (.code (Zone.lastAfter last c)) cs z') : Passes (.code last) (c :: cs) z' := by
  refine cons ?_ (by rwa [Zone.next_code_of_isInert hc])
  simp [isOpener_of_isInert hc, isCloser_of_isInert hc]

/-- A stretch of inert characters is passed in code. -/
theorem of_isInert (last : Option Char) (h : ∀ c ∈ cs, isInert c = true) :
    ∃ last', Passes (.code last) cs (.code last') := by
  induction cs generalizing last with
  | nil => exact ⟨last, nil _⟩
  | cons c cs ih =>
    obtain ⟨last', hlast'⟩ := ih _ fun d hd => h d (.tail _ hd)
    exact ⟨last', cons_isInert (h c (.head _)) hlast'⟩

/-- A pair of delimiters is passed where the text between them is. -/
theorem enclosed (last : Option Char) {last' : Option Char} {o c : Char}
    (ho : isOpener o = true) (hc : isCloser c = true) (h : Passes (.code (some o)) cs (.code last')) :
    Passes (.code last) (o :: cs ++ [c]) (.code (some c)) := by
  have hco : isOpener c = false := by
    simp only [isCloser, Bool.or_eq_true, decide_eq_true_eq] at hc
    rcases hc with (rfl | rfl) | rfl <;> decide
  refine ⟨?_, fun depth rest => ?_⟩
  · have hrun : (Zone.code last).run (o :: cs ++ [c]) = ((Zone.code (some o)).run cs).next c := by
      simp [Zone.run, Zone.next_code_opener ho]
    rw [hrun, h.run_eq, Zone.next_code_closer hc]
  · have hinside := h.close_eq (depth + 1) (c :: rest)
    have hclose : closeFrom? (.code last') (depth + 1) (c :: rest) =
        (closeFrom? (.code (some c)) depth rest).map (.push c) := by
      simp [closeFrom?, Zone.isCode, hco, hc, Zone.next_code_closer hc]
    have hopen : closeFrom? (.code last) depth (o :: (cs ++ c :: rest)) =
        (closeFrom? (.code (some o)) (depth + 1) (cs ++ c :: rest)).map (.push o) := by
      simp [closeFrom?, Zone.isCode, ho, Zone.next_code_opener ho]
    rw [List.append_assoc, List.cons_append, List.singleton_append, hopen, hinside, hclose,
      Option.map_map, Option.map_map]
    congr 1
    funext cut
    simp [Closed.push, Closed.prepend]

end Passes

/-! ## Lexemes -/

/-- Blanks are passed. -/
theorem passes_of_blanks {cs : List Char} (last : Option Char) (h : Blanks cs) :
    ∃ last', Passes (.code last) cs (.code last') :=
  Passes.of_isInert last fun c hc => isInert_of_isBlank (h c hc)

theorem Atom.passes {cs : List Char} (h : Atom cs) (last : Option Char) :
    ∃ last', Passes (.code last) cs (.code last') := by
  cases h with
  | inert h => exact Passes.of_isInert last h
  | @string q cs hq h =>
    refine ⟨some q, .cons ?_ (by rw [Zone.next_code_quote hq]; exact .of_inside h)⟩
    simp only [Wrapper.isQuote, Bool.or_eq_true, decide_eq_true_eq] at hq
    rcases hq with rfl | rfl <;> rfl

theorem isInert_of_dateWord {word : List Char} (h : DateWord word) :
    ∀ c ∈ word, isInert c = true := by
  cases h with
  | call => decide
  | construct hgap =>
    simp only [List.mem_cons, List.mem_append, List.not_mem_nil, or_false]
    rintro c (rfl | rfl | rfl | hc | rfl | rfl | rfl | rfl)
    · decide
    · decide
    · decide
    · exact isInert_of_isBlank (hgap c hc)
    · decide
    · decide
    · decide
    · decide

/-- A scalar is passed, a regular expression where a value may start. -/
theorem Lexeme.passes {cs : List Char} {last : Option Char} (h : Lexeme cs)
    (hstart : cs.head? = some '/' → Zone.valueMayStart last = true) :
    ∃ last', Passes (.code last) cs (.code last') := by
  cases h with
  | atom h => exact h.passes last
  | regex hbody hflags =>
    obtain ⟨last', hflagged⟩ := Passes.of_isInert (some '/')
      fun c hc => isInert_of_isAsciiLetter (hflags c hc)
    refine ⟨last', .cons rfl ?_⟩
    rw [Zone.next_code_slash (hstart rfl)]
    exact .append (.of_inside hbody) hflagged
  | date hword hfront hleft hargument hright =>
    obtain ⟨last₁, hpassWord⟩ := Passes.of_isInert last (isInert_of_dateWord hword)
    obtain ⟨last₂, hpassFront⟩ := passes_of_blanks last₁ hfront
    obtain ⟨last₃, hpassLeft⟩ := passes_of_blanks (some '(') hleft
    obtain ⟨last₄, hpassArgument⟩ := hargument.passes last₃
    obtain ⟨last₅, hpassRight⟩ := passes_of_blanks last₄ hright
    have hpair := Passes.enclosed last₂ (o := '(') (c := ')') rfl rfl
      (hpassLeft.append (hpassArgument.append hpassRight))
    exact ⟨some ')', by simpa using hpassWord.append (hpassFront.append hpair)⟩

/-! ## Slashes after wide blanks -/

/-- No slash that is met in code has a wide blank as the last character before it. -/
def SlashesSeen (z : Zone) (cs : List Char) : Prop :=
  ∀ before after b, cs = before ++ '/' :: after → z.run before = .code (some b) →
    isBlank b = false

theorem SlashesSeen.cons {z z' : Zone} {c : Char} {cs : List Char} (h : SlashesSeen z (c :: cs))
    (hz : z.next c = z') : SlashesSeen z' cs := by
  intro before after b hcs hrun
  exact h (c :: before) after b (by rw [hcs]; rfl) (by rw [← hrun, ← hz]; rfl)

/-- After a passage the rest of the text is read as it was. -/
theorem SlashesSeen.after {z z' : Zone} {taken rest cs : List Char} (h : SlashesSeen z cs)
    (hpass : Passes z taken z') (hcs : cs = taken ++ rest) : SlashesSeen z' rest := by
  intro before after b hrest hrun
  refine h (taken ++ before) after b ?_ ?_
  · rw [hcs, hrest, List.append_assoc]
  · rw [Zone.run_append, hpass.run_eq, hrun]

end ShellQuery
