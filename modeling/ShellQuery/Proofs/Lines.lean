/-
  ShellQuery.Proofs.Lines

  What a text loses with its comment lines. Texts are taken apart line by line from their beginning
  (`line_induction`). Nothing is lost just in case no line is a comment and no line end has a
  carriage return (`kept_eq_iff`). What is lost after the beginning of a query does not depend on the
  beginning (`exists_cleanQuery_append`).
-/
import ShellQuery.Call
import ShellQuery.Proofs.Reader

namespace ShellQuery

open Text

variable {cs line rest front : List Char} {c : Char}

/-! ## Lines -/

/-- A text is a single line, or a line before another text. -/
@[elab_as_elim]
theorem line_induction {P : List Char → Prop} (last : ∀ line, '\n' ∉ line → P line)
    (more : ∀ line rest, '\n' ∉ line → P rest → P (line ++ '\n' :: rest)) (cs : List Char) :
    P cs := by
  by_cases hbreak : '\n' ∈ cs
  · obtain ⟨line, rest, hcs, hline⟩ := List.eq_append_cons_of_mem hbreak
    have hshorter : rest.length < cs.length := by simp [hcs]; omega
    exact hcs ▸ more line rest hline (line_induction last more rest)
  · exact last cs hbreak
termination_by cs.length

/-- A line without the carriage return at its end. -/
def withoutReturn (line : List Char) : List Char :=
  if line.getLast? = some '\r' then line.dropLast else line

theorem withoutReturn_cons (c : Char) (hne : line ≠ []) :
    withoutReturn (c :: line) = c :: withoutReturn line := by
  obtain ⟨d, line, rfl⟩ := List.exists_cons_of_ne_nil hne
  rw [withoutReturn, withoutReturn, List.getLast?_cons_cons, List.dropLast_cons_cons]
  split <;> rfl

theorem length_withoutReturn_le (line : List Char) :
    (withoutReturn line).length ≤ line.length := by
  rw [withoutReturn]
  split <;> simp

theorem withoutReturn_eq_self : withoutReturn line = line ↔ ¬ line.getLast? = some '\r' := by
  rw [withoutReturn]
  split
  · rename_i hlast
    refine ⟨fun h => ?_, fun h => absurd hlast h⟩
    have hne : line ≠ [] := by
      rintro rfl
      cases hlast
    have hlength := congrArg List.length h
    rw [List.length_dropLast] at hlength
    exact absurd hlength (by have := List.length_pos_iff.2 hne; omega)
  · rename_i hlast
    exact ⟨fun _ => hlast, fun _ => rfl⟩

theorem withoutReturn_append (hfront : ¬ front.getLast? = some '\r')
    (line : List Char) : withoutReturn (front ++ line) = front ++ withoutReturn line := by
  rcases List.eq_nil_or_concat line with rfl | ⟨line, c, rfl⟩
  · have hnil : withoutReturn [] = [] := rfl
    rw [List.append_nil, withoutReturn_eq_self.2 hfront, hnil, List.append_nil]
  · rw [List.concat_eq_append, ← List.append_assoc, withoutReturn, withoutReturn,
      List.getLast?_concat, List.getLast?_concat]
    split
    · rw [List.dropLast_concat, List.dropLast_concat]
    · rw [List.append_assoc]

theorem lines_last (hne : line ≠ []) (hline : '\n' ∉ line) : lines line = [line] := by
  induction line with
  | nil => exact absurd rfl hne
  | cons c line ih =>
    obtain ⟨hc, hline⟩ := not_or.1 (mt List.mem_cons.2 hline)
    rw [lines, if_neg (Ne.symm hc)]
    cases line with
    | nil => rfl
    | cons d line =>
      have hd : d ≠ '\n' := fun hd => hline (hd ▸ .head _)
      rw [ih (by simp) hline]
      simp [hd]

theorem lines_break (hline : '\n' ∉ line) (rest : List Char) :
    lines (line ++ '\n' :: rest) = withoutReturn line :: lines rest := by
  induction line with
  | nil => rfl
  | cons c line ih =>
    obtain ⟨hc, hline⟩ := not_or.1 (mt List.mem_cons.2 hline)
    rw [List.cons_append, lines, if_neg (Ne.symm hc), ih hline]
    cases line with
    | nil => by_cases hc : c = '\r' <;> simp [withoutReturn, hc]
    | cons d line =>
      have hd : d ≠ '\n' := fun hd => hline (hd ▸ .head _)
      simp [hd, withoutReturn_cons c (List.cons_ne_nil d line)]

/-! ## Comments -/

theorem isCommentLine_blank (hc : isBlank c = true) (cs : List Char) :
    isCommentLine (c :: cs) = isCommentLine cs := by
  rw [isCommentLine, isCommentLine, trimStart, List.dropWhile_cons_of_pos hc, ← trimStart]

theorem isCommentLine_cons (hc : isBlank c = false) (cs : List Char) :
    isCommentLine (c :: cs) = decide (c = '/' ∧ cs.head? = some '/') := by
  rw [isCommentLine, trimStart_cons hc]
  cases cs <;> simp

/-- What follows a line does not make it a comment, or no comment. -/
theorem isCommentLine_append (hc : c ≠ '/') (htail : isCommentLine (c :: cs) = false) :
    isCommentLine (line ++ c :: cs) = isCommentLine line := by
  have htrim : trimStart (line ++ c :: cs) =
      if (trimStart line).isEmpty then trimStart (c :: cs) else trimStart line ++ c :: cs :=
    List.dropWhile_append
  rw [isCommentLine, htrim]
  -- a blank line is judged by what follows it, any other by its own beginning
  split
  · rename_i hblank
    rw [isCommentLine, List.isEmpty_iff.1 hblank]
    exact htail
  · rw [isCommentLine]
    rcases trimStart line with _ | ⟨a, _ | ⟨b, tail⟩⟩ <;> simp_all

theorem isCommentLine_withoutReturn (line : List Char) :
    isCommentLine (withoutReturn line) = isCommentLine line := by
  rw [withoutReturn]
  split
  · rename_i hlast
    obtain ⟨front, rfl⟩ := List.getLast?_eq_some_iff.1 hlast
    rw [List.dropLast_concat]
    exact (isCommentLine_append (by decide) rfl).symm
  · rfl

/-! ## What is kept -/

/-- The lines of a text that are no comments, each with a line break before it. -/
def kept (cs : List Char) : List Char :=
  ((lines cs).filter (!isCommentLine ·)).flatMap ('\n' :: ·)

theorem cleanQuery_eq (cs : List Char) : cleanQuery cs = trim (kept cs).tail := by
  rw [cleanQuery, kept]
  congr 1
  generalize (lines cs).filter (!isCommentLine ·) = ls
  cases ls with
  | nil => rfl
  | cons l ls =>
    rw [List.flatMap_cons, List.cons_append, List.tail_cons]
    induction ls generalizing l with
    | nil => simp
    | cons l' ls ih => simp [List.intercalate_cons_cons, ih]

theorem kept_last (hne : line ≠ []) (hline : '\n' ∉ line) :
    kept line = if isCommentLine line then [] else '\n' :: line := by
  rw [kept, lines_last hne hline]
  cases h : isCommentLine line <;> simp [h]

theorem kept_break (hline : '\n' ∉ line) (rest : List Char) :
    kept (line ++ '\n' :: rest) =
      (if isCommentLine line then [] else '\n' :: withoutReturn line) ++ kept rest := by
  rw [kept, lines_break hline, kept]
  cases h : isCommentLine line <;> simp [isCommentLine_withoutReturn, h]

theorem length_kept_le (cs : List Char) : (kept cs).length ≤ cs.length + 1 := by
  induction cs using line_induction with
  | last line hline =>
    by_cases hne : line = []
    · simp [hne, kept, lines]
    · rw [kept_last hne hline]
      split <;> simp
  | more line rest hline ih =>
    have hle := length_withoutReturn_le line
    rw [kept_break hline]
    split <;> simp <;> omega

/-- A carriage return before a line break is one at the end of a line. -/
theorem crlf_break (hline : '\n' ∉ line) (rest : List Char) :
    ['\r', '\n'] <:+: line ++ '\n' :: rest ↔
      line.getLast? = some '\r' ∨ ['\r', '\n'] <:+: rest := by
  induction line with
  | nil => simp [List.infix_cons_iff]
  | cons c line ih =>
    obtain ⟨-, hline⟩ := not_or.1 (mt List.mem_cons.2 hline)
    rw [List.cons_append, List.infix_cons_iff, ih hline]
    cases line with
    | nil => simp [eq_comm]
    | cons d line =>
      have hd : '\n' ≠ d := fun hd => hline (hd ▸ .head _)
      simp [hd]

theorem crlf_last (hline : '\n' ∉ line) : ¬ ['\r', '\n'] <:+: line := fun h =>
  hline (h.subset (by simp))

/-- Nothing is lost of a text that does not end in a line break, if and only if no line end has a
    carriage return and no line is a comment. -/
theorem kept_eq_iff (hne : cs ≠ []) (hlast : cs.getLast? ≠ some '\n') :
    kept cs = '\n' :: cs ↔
      ¬ ['\r', '\n'] <:+: cs ∧ ∀ line ∈ cs.splitOn '\n', isCommentLine line = false := by
  induction cs using line_induction with
  | last line hline =>
    rw [kept_last hne hline, List.splitOn_eq_singleton hline]
    cases h : isCommentLine line <;> simp [h, crlf_last hline]
  | more line rest hline ih =>
    have hrest : rest ≠ [] := by
      rintro rfl
      simp at hlast
    have hlast' : rest.getLast? ≠ some '\n' := by
      obtain ⟨d, rest, rfl⟩ := List.exists_cons_of_ne_nil hrest
      simpa [List.getLast?_append] using hlast
    have hle := length_kept_le rest
    have hle' := length_withoutReturn_le line
    rw [kept_break hline, crlf_break hline, List.splitOn_append_cons_self_of_not_mem hline,
      List.forall_mem_cons, not_or, and_and_and_comm, ← ih hrest hlast', ← withoutReturn_eq_self]
    -- no part gets longer, so each is as long as it was
    cases h : isCommentLine line with
    | true =>
      simp only [if_true, List.nil_append, Bool.true_eq_false, and_false, false_and, iff_false]
      intro heq
      have hlength := congrArg List.length heq
      simp only [List.length_cons, List.length_append] at hlength
      omega
    | false =>
      simp only [Bool.false_eq_true, if_false, and_true, List.cons_append, List.cons.injEq,
        true_and]
      constructor
      · intro heq
        have hlength := congrArg List.length heq
        simp only [List.length_cons, List.length_append] at hlength
        exact List.append_inj heq (by omega)
      · rintro ⟨hline, hrest⟩
        rw [hline, hrest]

/-! ## Beginnings -/

/-- What a query may begin with: one line that is no comment and ends in no blank. -/
structure Leads (front : List Char) : Prop where
  line : '\n' ∉ front
  first : ∃ c ∈ front.head?, isBlank c = false ∧ c ≠ '/'
  last : ∃ c ∈ front.getLast?, isBlank c = false

theorem Leads.isCommentLine (h : Leads front) (cs : List Char) :
    isCommentLine (front ++ cs) = false := by
  obtain ⟨c, hc, hblank, hne⟩ := h.first
  obtain ⟨tail, rfl⟩ := List.head?_eq_some_iff.1 hc
  rw [List.cons_append, isCommentLine_cons hblank]
  simp [hne]

theorem Leads.getLast? (h : Leads front) : front.getLast? ≠ some '\r' := by
  obtain ⟨c, hc, hblank⟩ := h.last
  rintro hreturn
  cases hc.symm.trans hreturn
  cases hblank

theorem trimEnd_concat {d : Char} (hd : isBlank d = false) (cs : List Char) :
    trimEnd (cs ++ [d]) = cs ++ [d] := by
  rw [trimEnd, List.reverse_append, List.reverse_singleton, List.singleton_append,
    List.dropWhile_cons_of_neg (by simp [hd])]
  simp

theorem trim_front (h : Leads front) (cs : List Char) : trim (front ++ cs) = front ++ trimEnd cs := by
  obtain ⟨c, hc, hblank, -⟩ := h.first
  obtain ⟨tail, rfl⟩ := List.head?_eq_some_iff.1 hc
  obtain ⟨d, hd, hblank'⟩ := h.last
  -- trimming the end goes no further than the front, which ends in no blank
  have hkept : (c :: tail).reverse.dropWhile isBlank = (c :: tail).reverse := by
    obtain ⟨init, hinit⟩ := List.getLast?_eq_some_iff.1 hd
    exact List.reverse_inj.1 (by rw [← trimEnd, hinit, trimEnd_concat hblank', List.reverse_reverse])
  rw [trim, List.cons_append, trimStart_cons hblank, ← List.cons_append, trimEnd, trimEnd,
    List.reverse_append, List.dropWhile_append, hkept]
  split
  · rename_i hempty
    rw [List.isEmpty_iff.1 hempty, List.reverse_reverse, List.reverse_nil, List.append_nil]
  · rw [List.reverse_append, List.reverse_reverse]

theorem isPrefix_of_trimEnd (cs : List Char) : trimEnd cs <+: cs := by
  simpa [trimEnd] using List.reverse_prefix.2 (List.dropWhile_suffix (l := cs.reverse) isBlank)

/-- What begins a query of one line stays, and the blanks at the end of the line do not. -/
theorem Leads.cleanQuery_append (h : Leads front) (hline : '\n' ∉ line) :
    cleanQuery (front ++ line) = front ++ trimEnd line := by
  have hne : front ++ line ≠ [] := by
    obtain ⟨c, hc, -⟩ := h.first
    rintro hnil
    rw [(List.append_eq_nil_iff.1 hnil).1] at hc
    cases hc
  have hbreak : '\n' ∉ front ++ line := by simp [h.line, hline]
  rw [cleanQuery_eq, kept_last hne hbreak, h.isCommentLine]
  exact trim_front h line

/-- What is left of a query after its beginning does not depend on the beginning. -/
theorem exists_cleanQuery_append (cs : List Char) :
    ∃ rest, ∀ {front : List Char}, Leads front → cleanQuery (front ++ cs) = front ++ rest := by
  induction cs using line_induction with
  | last line hline => exact ⟨trimEnd line, fun h => h.cleanQuery_append hline⟩
  | more line rest hline _ =>
    refine ⟨trimEnd (withoutReturn line ++ kept rest), fun {front} h => ?_⟩
    have hbreak : '\n' ∉ front ++ line := by simp [h.line, hline]
    rw [← List.append_assoc, cleanQuery_eq, kept_break hbreak, h.isCommentLine,
      withoutReturn_append h.getLast?, if_neg Bool.false_ne_true, List.cons_append, List.tail_cons,
      List.append_assoc]
    exact trim_front h _

end ShellQuery
