/-
  ShellQuery.Proofs.Path

  Paths into a response are read as they are written, one step after the other
  (`Path.parse_eq_ok_iff`). What is left of the text after the steps ends the statement.
-/
import ShellQuery.Proofs.Chain

namespace ShellQuery.Path

open Text

variable {cs text rest ending : List Char} {step : PathStep} {path : Path} {fuel : Nat}

/-! ## Steps -/

/-- A step as it is written. -/
inductive Writes : List Char → PathStep → Prop where
  | field {name : List Char} (hne : name ≠ []) (hname : ∀ c ∈ name, isStepChar c = true) :
    Writes ('.' :: name) (.field (.ofList name))
  | index {digits : List Char} (hne : digits ≠ []) (hdigits : ∀ c ∈ digits, isAsciiDigit c = true)
    (hrange : digitsValue digits < 2 ^ 64) :
    Writes ('[' :: (digits ++ [']'])) (.index (digitsValue digits))

theorem Writes.length_pos (h : Writes text step) : 0 < text.length := by
  cases h <;> simp

/-- A step begins with a dot or a bracket, so it is not the end, and it ends the name before it. -/
theorem Writes.head? (h : Writes text step) (rest : List Char) :
    ∃ c ∈ (text ++ rest).head?, isStepChar c = false ∧ Chain.isEnd [c] = false := by
  cases h with
  | field => exact ⟨'.', rfl, rfl, rfl⟩
  | index => exact ⟨'[', rfl, rfl, rfl⟩

theorem Writes.isEnd_append (h : Writes text step) (rest : List Char) :
    Chain.isEnd (text ++ rest) = false := by
  obtain ⟨c, hc, -, hend⟩ := h.head? rest
  obtain ⟨tail, htail⟩ := List.head?_eq_some_iff.1 hc
  have happend := Chain.isEnd_append [c] tail
  rwa [List.singleton_append, ← htail, hend, Bool.false_and] at happend

theorem isStepChar_of_isEnd {c : Char} (h : Chain.isEnd (c :: cs) = true) :
    isStepChar c = false := by
  simp only [Chain.isEnd, List.all_cons, Bool.and_eq_true, Bool.or_eq_true, decide_eq_true_eq] at h
  rcases h.1 with rfl | hblank
  · rfl
  · simpa using of_isBlank (p := fun c => !isStepChar c) (by decide +kernel) hblank

/-- What follows a step ends its name. -/
theorem ends_name {texts : List (List Char)} (h : List.Forall₂ Writes texts path)
    (hending : Chain.isEnd ending = true) :
    ∀ c ∈ (texts.flatten ++ ending).head?, isStepChar c = false := by
  intro c hc
  cases h with
  | nil =>
    cases ending with
    | nil => cases hc
    | cons d ending =>
      cases hc
      exact isStepChar_of_isEnd hending
  | @cons text _ texts _ htext _ =>
    rw [List.flatten_cons, List.append_assoc] at hc
    obtain ⟨d, hd, hstep, -⟩ := htext.head? (texts.flatten ++ ending)
    cases hc.symm.trans hd
    exact hstep

/-! ## Reading a path -/

/-- The reader takes a step and goes on with what is left after it. -/
theorem stepsFrom_step (h : Writes text step) (hrest : ∀ c ∈ rest.head?, isStepChar c = false) :
    stepsFrom (fuel + 1) (text ++ rest) = (stepsFrom fuel rest).map (step :: ·) := by
  have hend := h.isEnd_append rest
  cases h with
  | @field name hne hname =>
    -- the name is taken whole, since what follows ends it
    obtain ⟨htake, hdrop⟩ := takeWhile_append name hrest
    rw [List.takeWhile_eq_self_iff.2 hname] at htake
    rw [List.dropWhile_eq_nil_iff.2 hname, List.nil_append] at hdrop
    rw [List.cons_append] at hend ⊢
    simp only [stepsFrom, hend, htake, hdrop, hne, Bool.false_eq_true, if_false, if_true]
    cases stepsFrom fuel rest <;> rfl
  | @index digits hne hdigits hrange =>
    have hbracket : ∀ c ∈ (']' :: rest).head?, isAsciiDigit c = false := by
      simp [isAsciiDigit]
    obtain ⟨htake, hdrop⟩ := takeWhile_append digits hbracket
    rw [List.takeWhile_eq_self_iff.2 hdigits] at htake
    rw [List.dropWhile_eq_nil_iff.2 hdigits, List.nil_append] at hdrop
    rw [List.cons_append, List.append_assoc, List.singleton_append] at hend ⊢
    simp only [stepsFrom, hend, htake, hdrop, hne, Nat.not_le.2 hrange, List.head?_cons,
      List.tail_cons]
    cases stepsFrom fuel rest <;> rfl

/-- What the reader goes on from is a step. -/
theorem exists_step_of_stepsFrom (h : stepsFrom (fuel + 1) cs = .ok path)
    (hend : Chain.isEnd cs = false) :
    ∃ text step rest more, Writes text step ∧ cs = text ++ rest ∧ stepsFrom fuel rest = .ok more ∧
      path = step :: more := by
  simp only [stepsFrom, hend, Bool.false_eq_true, if_false] at h
  split at h
  · cases hend
  · rename_i c cs
    split at h
    · rename_i hdot
      split at h
      · cases h
      · rename_i hne
        obtain ⟨more, hmore, h⟩ := bind_eq_ok.1 h
        cases h
        exact ⟨_, _, _, more, .field hne fun d hd => List.mem_takeWhile_imp hd,
          by rw [hdot, List.cons_append, List.takeWhile_append_dropWhile], hmore, rfl⟩
    · split at h
      · rename_i hbracket
        split at h
        · cases h
        · rename_i hindex
          split at h
          · cases h
          · rename_i hrange
            obtain ⟨more, hmore, h⟩ := bind_eq_ok.1 h
            cases h
            simp only [ne_eq, Bool.or_eq_true, decide_eq_true_eq, not_or, not_not] at hindex
            obtain ⟨after, hafter⟩ := List.head?_eq_some_iff.1 hindex.2
            refine ⟨_, _, _, more, .index hindex.1 (fun d hd => List.mem_takeWhile_imp hd)
              (Nat.not_le.1 hrange), ?_, hmore, rfl⟩
            rw [hbracket, List.cons_append, List.append_assoc, List.singleton_append, hafter,
              List.tail_cons, ← hafter, List.takeWhile_append_dropWhile]
      · cases h

/-- A path as it is written: steps, and the end of the statement. -/
inductive Written : List Char → Path → Prop where
  | steps {gap ending : List Char} {texts : List (List Char)} {path : Path}
    (hgap : NarrowBlanks gap) (htexts : List.Forall₂ Writes texts path)
    (hending : Chain.isEnd ending = true) : Written (gap ++ (texts.flatten ++ ending)) path

theorem stepsFrom_eq_ok_iff (hfuel : cs.length < fuel) : stepsFrom fuel cs = .ok path ↔
    ∃ texts ending, List.Forall₂ Writes texts path ∧ Chain.isEnd ending = true ∧
      cs = texts.flatten ++ ending := by
  -- each step takes up a character, so the fuel stays above what is left
  induction fuel generalizing cs path with
  | zero => omega
  | succ fuel ih =>
    cases hend : Chain.isEnd cs with
    | true =>
      have hsteps : stepsFrom (fuel + 1) cs = .ok [] := by
        simp [stepsFrom, hend]
      rw [hsteps]
      constructor
      · rintro ⟨⟩
        exact ⟨[], cs, .nil, hend, rfl⟩
      · rintro ⟨texts, ending, htexts, -, rfl⟩
        cases htexts with
        | nil => rfl
        | cons htext =>
          rw [List.flatten_cons, List.append_assoc, htext.isEnd_append] at hend
          cases hend
    | false =>
      constructor
      · intro h
        obtain ⟨text, step, rest, more, htext, rfl, hmore, rfl⟩ := exists_step_of_stepsFrom h hend
        have hless := htext.length_pos
        rw [List.length_append] at hfuel
        obtain ⟨texts, ending, htexts, hending, rfl⟩ := (ih (by omega)).1 hmore
        exact ⟨text :: texts, ending, .cons htext htexts, hending, by simp⟩
      · rintro ⟨texts, ending, htexts, hending, rfl⟩
        cases htexts with
        | nil => simp [hending] at hend
        | @cons text _ texts _ htext htexts =>
          have hless := htext.length_pos
          simp only [List.flatten_cons, List.append_assoc, List.length_append] at hfuel ⊢
          have hshort : (texts.flatten ++ ending).length < fuel := by
            rw [List.length_append]
            omega
          rw [stepsFrom_step htext (ends_name htexts hending),
            (ih hshort).2 ⟨_, _, htexts, hending, rfl⟩]
          rfl

/-- Narrow blanks may be in front of the steps only, or in the end of the statement. -/
theorem Written.skipAsciiBlanks (h : Written cs path) : ∃ texts ending,
    List.Forall₂ Writes texts path ∧ Chain.isEnd ending = true ∧
      skipAsciiBlanks cs = texts.flatten ++ ending := by
  obtain @⟨gap, ending, texts, _, hgap, htexts, hending⟩ := h
  rw [skipAsciiBlanks_append hgap]
  -- a step begins with no blank, and the end of a statement may
  cases htexts with
  | nil => exact ⟨[], _, .nil, (Chain.isEnd_skipAsciiBlanks ending).trans hending, rfl⟩
  | @cons text _ texts _ htext htexts =>
    refine ⟨text :: texts, ending, .cons htext htexts, hending, ?_⟩
    cases htext <;> rfl

/-- A path is read as it is written. -/
theorem parse_eq_ok_iff : parse cs = .ok path ↔ Written cs path := by
  have hfuel : (skipAsciiBlanks cs).length < cs.length + 1 :=
    Nat.lt_succ_of_le (List.length_dropWhile_le isAsciiBlank cs)
  rw [parse, stepsFrom_eq_ok_iff hfuel]
  constructor
  · rintro ⟨texts, ending, htexts, hending, hskip⟩
    obtain ⟨gap, hgap, hcs⟩ := eq_append_skipAsciiBlanks cs
    rw [hcs, hskip]
    exact .steps hgap htexts hending
  · exact Written.skipAsciiBlanks

end ShellQuery.Path
