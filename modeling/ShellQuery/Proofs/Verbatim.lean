/-
  ShellQuery.Proofs.Verbatim

  A collection that is given by a string literal, as in `db.getCollection("name").method()`. The name
  is cut out between the quotes as it stands in the cleaned query: no escape is decoded, and the lines
  of the literal lose what the lines of a query lose. So the collection is the string that the literal
  denotes just in case the literal is verbatim: it has no backslash, none of its lines but the first is
  a comment, and no carriage return stands before a line break (`collection_of_getCollection`).

  That a name can only be the string where nothing was decoded or dropped is shown line by line, from
  the first on. `weight` counts the characters of a line, backslashes twice. Every escape makes it
  less by two or more, and the carriage return at the end of a line is one.
-/
import ShellQuery.Proofs.Accepted
import ShellQuery.Proofs.Grammar.Quoted
import ShellQuery.Proofs.Shell.Reach
import ShellQuery.Proofs.Spelling

namespace ShellQuery

open Text Argument Grammar

variable {q c e : Char} {n : Nat} {body value line rest front w cs tail name method : List Char}

/-! ## Escapes -/

/-- The number of characters of a text, in which a backslash counts twice. -/
def weight (cs : List Char) : Nat :=
  cs.length + cs.count '\\'

theorem weight_append (as bs : List Char) : weight (as ++ bs) = weight as + weight bs := by
  simp only [weight, List.length_append, List.count_append]
  omega

theorem weight_cons (c : Char) (cs : List Char) : weight (c :: cs) = weight [c] + weight cs :=
  weight_append [c] cs

theorem weight_singleton (c : Char) : 1 ≤ weight [c] ∧ weight [c] ≤ 2 := by
  by_cases hc : c = '\\' <;> simp [weight, hc]

/-- What an escape denotes weighs less by two than the escape. -/
theorem weight_of_escape (he : Escape e c) : weight [c] + 2 ≤ weight ['\\', e] := by
  cases he with
  | itself =>
    by_cases hc : c = '\\' <;> simp [weight, hc]
  | _ => decide

theorem length_le_weight (cs : List Char) : cs.length ≤ weight cs :=
  Nat.le_add_right _ _

theorem length_of_codeUnit {ds : List Char} (h : CodeUnit ds n) : ds.length = 4 := by
  obtain ⟨a, b, c, d, hds, -⟩ := h
  simpa using congrArg List.length hds

/-- A code unit has only hexadecimal digits. -/
theorem not_mem_of_codeUnit {ds : List Char} (h : CodeUnit ds n) (hc : hexDigit? c = none) :
    c ∉ ds := by
  obtain ⟨a, b, d, d', hds, -⟩ := h
  intro hmem
  have hnone : none ∈ ds.map hexDigit? := hc ▸ List.mem_map_of_mem hmem
  simp [hds] at hnone

/-- A text has one cut at its first quote. -/
theorem eq_of_append_quote {as bs : List Char} (has : q ∉ as) (hbs : q ∉ bs)
    (h : as ++ q :: tail = bs ++ q :: rest) : as = bs ∧ tail = rest := by
  have hne : ∀ {cs : List Char}, q ∉ cs → ∀ d ∈ cs, decide (d = q) = false := by
    intro cs hcs d hd
    simpa using fun heq : d = q => hcs (heq ▸ hd)
  obtain ⟨has', -, htail⟩ := Wrapper.cut_unique (p := fun d => decide (d = q)) h (hne has) (by simp)
    (hne hbs) (by simp)
  exact ⟨has', htail⟩

section
variable (hq : Wrapper.isQuote q = true)

include hq in
theorem quote_cases : q = '"' ∨ q = '\'' := by
  simpa [Wrapper.isQuote] using hq

include hq in
/-- A quote that stands in a string is one of the characters that it denotes. -/
theorem mem_of_quote_mem (h : StringBody q body value) (hmem : q ∈ body) : q ∈ value := by
  induction h with
  | nil => cases hmem
  | plain hquote hbackslash h ih =>
    exact .tail _ (ih ((List.mem_cons.1 hmem).resolve_left (Ne.symm hquote)))
  | @escape e c cs text he h ih =>
    have hbackslash : q ≠ '\\' := by rcases quote_cases hq with rfl | rfl <;> decide
    rcases List.mem_cons.1 ((List.mem_cons.1 hmem).resolve_left hbackslash) with rfl | hmem
    · have hc : c = q := by rcases quote_cases hq with rfl | rfl <;> cases he <;> rfl
      rw [hc]
      exact .head _
    · exact .tail _ (ih hmem)
  | @unicode ds cs text n hn hsurrogate h ih =>
    have hdigit : hexDigit? q = none ∧ q ≠ '\\' ∧ q ≠ 'u' := by
      rcases quote_cases hq with rfl | rfl <;> decide
    have hds := not_mem_of_codeUnit hn hdigit.1
    simp only [List.mem_cons, List.mem_append, hdigit.2, hds, false_or] at hmem
    exact .tail _ (ih hmem)

end

/-- Without a backslash a string denotes what stands between its quotes. -/
theorem eq_of_backslash_not_mem (h : StringBody q body value) (hb : '\\' ∉ body) : value = body := by
  induction h with
  | nil => rfl
  | plain hquote hbackslash h ih => rw [ih fun hmem => hb (.tail _ hmem)]
  | escape he h => exact absurd (.head _) hb
  | unicode hn hsurrogate h => exact absurd (.head _) hb

theorem quote_not_mem (h : StringBody q body value) (hb : '\\' ∉ body) : q ∉ body := by
  induction h with
  | nil => exact List.not_mem_nil
  | plain hquote hbackslash h ih =>
    simp [Ne.symm hquote, ih fun hmem => hb (.tail _ hmem)]
  | escape he h => exact absurd (.head _) hb
  | unicode hn hsurrogate h => exact absurd (.head _) hb

theorem length_le_of_stringBody (h : StringBody q body value) : value.length ≤ body.length := by
  induction h with
  | nil => exact Nat.le_refl _
  | plain hquote hbackslash h ih => exact Nat.succ_le_succ ih
  | escape he h ih =>
    simp only [List.length_cons]
    omega
  | unicode hn hsurrogate h ih =>
    simp only [List.length_cons, List.length_append]
    omega

/-- A string that denotes no fewer characters than stand between its quotes has no backslash. -/
theorem backslash_not_mem (h : StringBody q body value) (hle : body.length ≤ value.length) :
    '\\' ∉ body := by
  induction h with
  | nil => exact List.not_mem_nil
  | plain hquote hbackslash h ih => simpa [Ne.symm hbackslash] using ih (Nat.le_of_succ_le_succ hle)
  | escape he h =>
    have hshorter := length_le_of_stringBody h
    simp only [List.length_cons] at hle
    omega
  | unicode hn hsurrogate h =>
    have hshorter := length_le_of_stringBody h
    simp only [List.length_cons, List.length_append] at hle
    omega

/-- A piece without a line break at the front of a text is a piece of its first line. -/
theorem exists_of_append_break {taken more : List Char} (htaken : '\n' ∉ taken)
    (h : line ++ '\n' :: rest = taken ++ more) :
    ∃ line', line = taken ++ line' ∧ more = line' ++ '\n' :: rest := by
  rcases List.append_eq_append_iff.1 h with ⟨as, rfl, has⟩ | ⟨as, hline, hmore⟩
  · cases as with
    | nil => exact ⟨[], by simp, has.symm⟩
    | cons a as =>
      obtain ⟨rfl, -⟩ := List.cons.inj has
      exact absurd (by simp) htaken
  · exact ⟨as, hline, hmore⟩

/-- The first line of what a string denotes is the first line between its quotes, without escapes,
    or it weighs less by two. -/
theorem first_line (hline : '\n' ∉ line) (hw : '\n' ∉ w)
    (h : StringBody q (line ++ '\n' :: rest) (w ++ '\n' :: tail)) :
    (w = line ∧ '\\' ∉ line ∧ StringBody q rest tail) ∨ weight w + 2 ≤ weight line := by
  generalize hbody : line ++ '\n' :: rest = body at h
  generalize hvalue : w ++ '\n' :: tail = value at h
  have hbackslash : weight ['\\'] = 2 := rfl
  have hnil : weight [] = 0 := rfl
  induction h generalizing line w with
  | nil => simp at hbody
  | @plain c cs text hquote hplain h ih =>
    rcases line with _ | ⟨c', line⟩ <;> rcases w with _ | ⟨d, w⟩ <;>
      simp only [List.cons_append, List.nil_append, List.cons.injEq] at hbody hvalue <;>
      obtain ⟨rfl, rfl⟩ := hbody
    · exact .inl ⟨rfl, List.not_mem_nil, hvalue.2 ▸ h⟩
    · exact absurd (.head _) (hvalue.1 ▸ hw)
    · exact absurd (.head _) (hvalue.1 ▸ hline)
    · obtain ⟨rfl, hvalue⟩ := hvalue
      rcases ih (fun hmem => hline (.tail _ hmem)) (fun hmem => hw (.tail _ hmem)) rfl hvalue with
        ⟨rfl, hline', h'⟩ | hle
      · exact .inl ⟨rfl, by simp [Ne.symm hplain, hline'], h'⟩
      · rw [weight_cons d w, weight_cons d line]
        exact .inr (by omega)
  | @escape e c cs text he h ih =>
    refine .inr ?_
    have hescape := weight_of_escape he
    rw [weight_cons '\\', hbackslash] at hescape
    rcases line with _ | ⟨b, _ | ⟨e', line⟩⟩ <;> rcases w with _ | ⟨d, w⟩ <;>
      simp only [List.cons_append, List.nil_append, List.cons.injEq] at hbody hvalue
    · cases hbody.1
    · cases hbody.1
    · rw [hbody.1]
      decide
    -- the line break itself is escaped, and what it denotes is one
    · obtain ⟨-, rfl, -⟩ := hbody
      obtain ⟨rfl, -⟩ := hvalue
      have hbreak : d = '\n' := by cases he; rfl
      exact absurd (.head _) (hbreak ▸ hw)
    · obtain ⟨rfl, rfl, -⟩ := hbody
      rw [weight_cons '\\', weight_cons e']
      omega
    · obtain ⟨rfl, rfl, rfl⟩ := hbody
      obtain ⟨rfl, hvalue⟩ := hvalue
      have hle : weight w ≤ weight line := by
        rcases ih (fun hmem => hline (.tail _ (.tail _ hmem))) (fun hmem => hw (.tail _ hmem)) rfl
          hvalue with ⟨rfl, -⟩ | hle <;> omega
      rw [weight_cons '\\', weight_cons e', weight_cons d w]
      omega
  | @unicode ds cs text n hn hsurrogate h ih =>
    refine .inr ?_
    have hescape : '\n' ∉ '\\' :: 'u' :: ds := by
      simp [not_mem_of_codeUnit hn (c := '\n') rfl]
    obtain ⟨line, rfl, rfl⟩ := exists_of_append_break hescape hbody
    have hds := length_le_weight ds
    have hu : weight ['u'] = 1 := rfl
    have hlength := length_of_codeUnit hn
    rw [weight_append, weight_cons, weight_cons 'u', hbackslash, hu]
    rcases w with _ | ⟨d, w⟩ <;>
      simp only [List.cons_append, List.nil_append, List.cons.injEq] at hvalue
    · omega
    · have hle : weight w ≤ weight line := by
        rcases ih (fun hmem => hline (List.mem_append_right _ hmem)) (fun hmem => hw (.tail _ hmem))
          rfl hvalue.2 with ⟨rfl, -⟩ | hle <;> omega
      have hd := (weight_singleton d).2
      rw [weight_cons d w]
      omega

/-! ## Comments -/

/-- Whether the first line of a text is a comment. -/
def Commented (cs : List Char) : Prop :=
  ∃ gap rest, Blanks gap ∧ '\n' ∉ gap ∧ cs = gap ++ '/' :: '/' :: rest

theorem Commented.append (h : Commented cs) (more : List Char) : Commented (cs ++ more) := by
  obtain ⟨gap, rest, hgap, hbreak, rfl⟩ := h
  exact ⟨gap, rest ++ more, hgap, hbreak, by simp⟩

theorem commented_line (hline : '\n' ∉ line) : Commented line ↔ isCommentLine line = true := by
  constructor
  · rintro ⟨gap, rest, hgap, -, rfl⟩
    rw [isCommentLine, trimStart_mark hgap rfl]
    rfl
  · intro h
    obtain ⟨gap, hgap, hline'⟩ := eq_blanks_append_trimStart line
    have htake := of_decide_eq_true h
    rcases htrim : trimStart line with _ | ⟨a, _ | ⟨b, rest⟩⟩
    · simp [htrim] at htake
    · simp [htrim] at htake
    · simp only [htrim, List.take_succ_cons, List.take_zero, List.cons.injEq, and_true] at htake
      obtain ⟨rfl, rfl⟩ := htake
      rw [htrim] at hline'
      exact ⟨gap, rest, hgap, fun hmem => hline (by simp [hline', hmem]), hline'⟩

/-- What follows a line break does not make the first line a comment. -/
theorem Commented.of_break (h : Commented (line ++ '\n' :: rest)) : Commented line := by
  obtain ⟨gap, tail, hgap, hbreak, heq⟩ := h
  have hcomment : '\n' ∉ gap ++ ['/', '/'] := by simp [hbreak]
  have heq' : line ++ '\n' :: rest = (gap ++ ['/', '/']) ++ tail := by simpa using heq
  obtain ⟨as, rfl, -⟩ := exists_of_append_break hcomment heq'
  exact ⟨gap, as, hgap, hbreak, by simp⟩

/-- What is kept of a text begins with a line break. -/
theorem kept_cases (cs : List Char) : kept cs = [] ∨ ∃ tail, kept cs = '\n' :: tail := by
  rw [kept]
  rcases (lines cs).filter (!isCommentLine ·) with _ | ⟨l, ls⟩
  · exact .inl rfl
  · exact .inr ⟨_, rfl⟩

theorem withoutReturn_subset (line : List Char) : withoutReturn line ⊆ line := by
  rw [withoutReturn]
  split
  · exact List.dropLast_subset line
  · exact List.Subset.refl line

/-- The first line that is kept of a text is no comment. -/
theorem not_commented_of_kept (h : kept cs = '\n' :: tail) : ¬ Commented tail := by
  induction cs using line_induction with
  | last line hline =>
    by_cases hne : line = []
    · simp [hne, kept, lines] at h
    · rw [kept_last hne hline] at h
      split at h
      · cases h
      · obtain ⟨-, rfl⟩ := List.cons.inj h
        rwa [commented_line hline]
  | more line rest hline ih =>
    rw [kept_break hline] at h
    split at h
    · exact ih h
    · rename_i hcomment
      obtain ⟨-, rfl⟩ := List.cons.inj h
      rw [← isCommentLine_withoutReturn,
        ← commented_line fun hmem => hline (withoutReturn_subset line hmem)] at hcomment
      rcases kept_cases rest with hrest | ⟨more, hrest⟩
      · simpa [hrest] using hcomment
      · rw [hrest]
        exact fun hcommented => hcomment hcommented.of_break

theorem exists_of_stringBody_cons (hc : c ≠ '\\') (h : StringBody q (c :: cs) value) :
    ∃ text, value = c :: text ∧ StringBody q cs text := by
  cases h with
  | plain _ _ h => exact ⟨_, rfl, h⟩
  | escape => exact absurd rfl hc
  | unicode => exact absurd rfl hc

/-- A string whose first line is a comment denotes a text whose first line is one. -/
theorem commented_of_stringBody (hbody : Commented body) (h : StringBody q body value) :
    Commented value := by
  obtain ⟨gap, rest, hgap, hbreak, rfl⟩ := hbody
  induction gap generalizing value with
  | nil =>
    obtain ⟨text, rfl, hslash⟩ := exists_of_stringBody_cons (by decide) h
    obtain ⟨text, rfl, -⟩ := exists_of_stringBody_cons (by decide) hslash
    exact ⟨[], text, .nil, List.not_mem_nil, rfl⟩
  | cons b gap ih =>
    have hb := hgap b (.head _)
    obtain ⟨text, rfl, htext⟩ := exists_of_stringBody_cons (ne_of_isBlank hb rfl) h
    obtain ⟨gap', tail, hgap', hbreak', rfl⟩ :=
      ih (fun c hc => hgap c (.tail _ hc)) (fun hmem => hbreak (.tail _ hmem)) htext
    have hne : '\n' ≠ b := fun heq => hbreak (heq ▸ .head _)
    exact ⟨b :: gap', tail, List.forall_mem_cons.2 ⟨hb, hgap'⟩, by simp [hne, hbreak'], rfl⟩

/-! ## Verbatim literals -/

/-- What stands between the quotes of a literal stands so in the cleaned query, and denotes itself. -/
structure Verbatim (body : List Char) : Prop where
  unescaped : '\\' ∉ body
  returnless : ¬ ['\r', '\n'] <:+: body
  uncommented : ∀ line ∈ (body.splitOn '\n').tail, isCommentLine line = false

theorem weight_withoutReturn (line : List Char) :
    withoutReturn line = line ∨ weight line = weight (withoutReturn line) + 1 := by
  rw [withoutReturn]
  split
  · rename_i hlast
    obtain ⟨init, rfl⟩ := List.getLast?_eq_some_iff.1 hlast
    have hreturn : weight ['\r'] = 1 := rfl
    rw [List.dropLast_concat, weight_append, hreturn]
    exact .inr rfl
  · exact .inl rfl

section
variable {after : List Char} (hq : Wrapper.isQuote q = true)

include hq in
theorem break_not_mem (hline : '\n' ∉ line) (hafter : '\n' ∉ after) : '\n' ∉ line ++ q :: after := by
  have hne : '\n' ≠ q := by
    rintro rfl
    cases hq
  simp [hline, hafter, hne]

include hq in
/-- A closing quote and what follows it do not make a line a comment. -/
theorem isCommentLine_quote : isCommentLine (line ++ q :: after) = isCommentLine line := by
  have hne : q ≠ '/' := by
    rintro rfl
    cases hq
  exact isCommentLine_append hne (by simp [isCommentLine_cons (Wrapper.isBlank_of_isQuote hq), hne])

include hq in
/-- The last line of a literal, if the text up to the first quote after it is what it denotes. -/
theorem last_line (h : StringBody q line value) (hvalue : q ∉ value)
    (hkept : value ++ [q] <+: line ++ q :: after) : '\\' ∉ line := by
  have hline : q ∉ line := fun hmem => hvalue (mem_of_quote_mem hq h hmem)
  obtain ⟨tail, htail⟩ := hkept
  obtain ⟨rfl, -⟩ : value = line ∧ tail = after :=
    eq_of_append_quote hvalue hline (by simpa using htail)
  exact backslash_not_mem h (Nat.le_refl _)

include hq in
/-- A line of a literal that has another after it, if the text up to the first quote in what is kept
    of them is what the literal denotes. -/
theorem literal_line (hline : '\n' ∉ line) (h : StringBody q (line ++ '\n' :: rest) value)
    (hvalue : q ∉ value)
    (hkept : value ++ [q] <+: withoutReturn line ++ kept (rest ++ q :: after)) :
    withoutReturn line = line ∧ '\\' ∉ line ∧ ∃ tail, value = line ++ '\n' :: tail ∧
      StringBody q rest tail ∧ '\n' :: (tail ++ [q]) <+: kept (rest ++ q :: after) := by
  have hsubset := withoutReturn_subset line
  have hquote : q ∉ line := fun hmem => hvalue (mem_of_quote_mem hq h (by simp [hmem]))
  have hqbreak : '\n' ≠ q := by
    rintro rfl
    cases hq
  -- the quote is not on this line, so what is denoted goes on to the next line that is kept
  obtain ⟨tail, rfl, hnext⟩ : ∃ tail, value = withoutReturn line ++ '\n' :: tail ∧
      '\n' :: (tail ++ [q]) <+: kept (rest ++ q :: after) := by
    obtain ⟨more, hmore⟩ := hkept
    have hnone : ∀ text, kept (rest ++ q :: after) ≠ q :: text := by
      intro text htext
      rcases kept_cases (rest ++ q :: after) with hnil | ⟨tail, htail⟩
      · simp [hnil] at htext
      · exact hqbreak (List.cons.inj (htail.symm.trans htext)).1
    rw [List.append_assoc, List.singleton_append] at hmore
    rcases List.append_eq_append_iff.1 hmore with ⟨_ | ⟨a, as⟩, has, hrest⟩ | ⟨_ | ⟨a, as⟩, has, hrest⟩
    · exact absurd hrest.symm (hnone more)
    · rw [List.cons_append, List.cons.injEq] at hrest
      exact absurd (hsubset (by simp [has, hrest.1])) hquote
    · exact absurd hrest (hnone more)
    · rcases kept_cases (rest ++ q :: after) with hnil | ⟨text, htext⟩
      · simp [hnil] at hrest
      · rw [htext, List.cons_append, List.cons.injEq] at hrest
        obtain ⟨rfl, rfl⟩ := hrest
        exact ⟨as, has, more, by simp [htext]⟩
  rcases first_line hline (fun hmem => hline (hsubset hmem)) h with ⟨hsame, hplain, hbody⟩ | hle
  · exact ⟨hsame, hplain, tail, by rw [hsame], hbody, hnext⟩
  · rcases weight_withoutReturn line with hsame | hweight
    · rw [hsame] at hle
      omega
    · omega

include hq in
/-- The lines of a literal after its first, if the text up to the first quote in what is kept of them
    is what they denote. -/
theorem later_lines (h : StringBody q body value) (hafter : '\n' ∉ after) (hvalue : q ∉ value)
    (hkept : '\n' :: (value ++ [q]) <+: kept (body ++ q :: after)) :
    '\\' ∉ body ∧ ¬ ['\r', '\n'] <:+: body ∧
      ∀ line ∈ body.splitOn '\n', isCommentLine line = false := by
  induction body using line_induction generalizing value with
  | last line hline =>
    rw [kept_last (by simp) (break_not_mem hq hline hafter), isCommentLine_quote hq] at hkept
    split at hkept
    · simp at hkept
    · rename_i huncommented
      refine ⟨last_line hq h hvalue (List.cons_prefix_cons.1 hkept).2, crlf_last hline, ?_⟩
      simpa [List.splitOn_eq_singleton hline] using huncommented
  | more line rest hline ih =>
    rw [List.append_assoc, List.cons_append, kept_break hline] at hkept
    split at hkept
    -- a dropped line would be seen in what is denoted, where the first line that is kept is expected
    · rename_i hcomment
      have hbody : Commented (line ++ '\n' :: rest) :=
        ((commented_line hline).2 hcomment).append _
      obtain ⟨more, hmore⟩ := hkept
      exact absurd (((commented_of_stringBody hbody h).append [q]).append more)
        (not_commented_of_kept (by simpa using hmore.symm))
    · rename_i huncommented
      obtain ⟨hsame, hplain, tail, rfl, hbody, hnext⟩ :=
        literal_line hq hline h hvalue (List.cons_prefix_cons.1 hkept).2
      obtain ⟨hrest, hreturn, hcomments⟩ := ih hbody (fun hmem => hvalue (by simp [hmem])) hnext
      refine ⟨by simp [hplain, hrest], ?_, ?_⟩
      · rw [crlf_break hline, not_or]
        exact ⟨withoutReturn_eq_self.1 hsame, hreturn⟩
      · rw [List.splitOn_append_cons_self_of_not_mem hline, List.forall_mem_cons]
        exact ⟨by simpa using huncommented, hcomments⟩

include hq in
/-- If the text up to the first quote in the cleaned query is what the literal denotes, the literal is
    verbatim. -/
theorem verbatim_of_isPrefix (hfront : Leads front) (h : StringBody q body value)
    (hafter : '\n' ∉ after) (hvalue : q ∉ value)
    (hclean : front ++ (value ++ [q]) <+: cleanQuery (front ++ (body ++ q :: after))) :
    Verbatim body := by
  -- the end of the query is trimmed, and so is nothing of the literal
  have htrim : ∀ {left}, kept (front ++ (body ++ q :: after)) = '\n' :: (front ++ left) →
      value ++ [q] <+: left := by
    intro left hleft
    rw [cleanQuery_eq, hleft, List.tail_cons, trim_front hfront, List.prefix_append_right_inj] at hclean
    exact hclean.trans (isPrefix_of_trimEnd left)
  induction body using line_induction with
  | last line hline =>
    have hbreak : '\n' ∉ front ++ (line ++ q :: after) := by
      simpa [hfront.line] using break_not_mem hq hline hafter
    have hkept : kept (front ++ (line ++ q :: after)) = '\n' :: (front ++ (line ++ q :: after)) := by
      rw [kept_last (by simp) hbreak, hfront.isCommentLine]
      rfl
    exact ⟨last_line hq h hvalue (htrim hkept), crlf_last hline,
      by simp [List.splitOn_eq_singleton hline]⟩
  | more line rest hline =>
    have hbreak : '\n' ∉ front ++ line := by simp [hfront.line, hline]
    have hkept : kept (front ++ (line ++ '\n' :: rest ++ q :: after)) =
        '\n' :: (front ++ (withoutReturn line ++ kept (rest ++ q :: after))) := by
      have hlines := kept_break hbreak (rest ++ q :: after)
      rw [hfront.isCommentLine, withoutReturn_append hfront.getLast?] at hlines
      simpa using hlines
    obtain ⟨hsame, hplain, tail, rfl, hbody, hnext⟩ :=
      literal_line hq hline h hvalue (htrim hkept)
    obtain ⟨hrest, hreturn, hcomments⟩ :=
      later_lines hq hbody hafter (fun hmem => hvalue (by simp [hmem])) hnext
    refine ⟨by simp [hplain, hrest], ?_, ?_⟩
    · rw [crlf_break hline, not_or]
      exact ⟨withoutReturn_eq_self.1 hsame, hreturn⟩
    · rwa [List.splitOn_append_cons_self_of_not_mem hline]

include hq in
/-- Nothing is lost of lines of which none is a comment, and none ends in a carriage return. -/
theorem kept_of_lines (hreturn : ¬ ['\r', '\n'] <:+: body)
    (hcomments : ∀ line ∈ body.splitOn '\n', isCommentLine line = false) (hafter : '\n' ∉ after) :
    kept (body ++ q :: after) = '\n' :: (body ++ q :: after) := by
  induction body using line_induction with
  | last line hline =>
    rw [List.splitOn_eq_singleton hline, List.forall_mem_singleton] at hcomments
    rw [kept_last (by simp) (break_not_mem hq hline hafter), isCommentLine_quote hq, hcomments]
    rfl
  | more line rest hline ih =>
    rw [crlf_break hline, not_or] at hreturn
    rw [List.splitOn_append_cons_self_of_not_mem hline, List.forall_mem_cons] at hcomments
    rw [List.append_assoc, List.cons_append, kept_break hline, hcomments.1,
      withoutReturn_eq_self.2 hreturn.1, ih hreturn.2 hcomments.2]
    simp

include hq in
/-- A query with a verbatim literal loses nothing. -/
theorem cleanQuery_of_verbatim (hfront : Leads front) (h : Verbatim body) (hafter : '\n' ∉ after)
    (hend : ∃ d ∈ after.getLast?, isBlank d = false) :
    cleanQuery (front ++ (body ++ q :: after)) = front ++ (body ++ q :: after) := by
  have hkept : kept (front ++ (body ++ q :: after)) = '\n' :: (front ++ (body ++ q :: after)) := by
    obtain ⟨-, hreturn, hcomments⟩ := h
    induction body using line_induction with
    | last line hline =>
      have hbreak : '\n' ∉ front ++ (line ++ q :: after) := by
        simpa [hfront.line] using break_not_mem hq hline hafter
      rw [kept_last (by simp) hbreak, hfront.isCommentLine]
      rfl
    | more line rest hline =>
      have hbreak : '\n' ∉ front ++ line := by simp [hfront.line, hline]
      rw [crlf_break hline, not_or] at hreturn
      rw [List.splitOn_append_cons_self_of_not_mem hline, List.tail_cons] at hcomments
      have hlines := kept_break hbreak (rest ++ q :: after)
      rw [hfront.isCommentLine, withoutReturn_append hfront.getLast?,
        withoutReturn_eq_self.2 hreturn.1, kept_of_lines hq hreturn.2 hcomments hafter] at hlines
      simpa using hlines
  obtain ⟨d, hd, hblank⟩ := hend
  obtain ⟨init, rfl⟩ := List.getLast?_eq_some_iff.1 hd
  have htrim := trimEnd_concat hblank (body ++ q :: init)
  rw [cleanQuery_eq, hkept, List.tail_cons, trim_front hfront]
  simpa using htrim

end

/-! ## The collection -/

/-- A call on a collection that is given by a string literal. -/
def getCollectionQuery (literal method : List Char) : List Char :=
  "db.getCollection(".toList ++ literal ++ ").".toList ++ method ++ "()".toList

/-- What stands before the literal, and its opening quote. -/
def literalFront (q : Char) : List Char :=
  'd' :: 'b' :: '.' :: ("getCollection".toList ++ ['(', q])

/-- What stands after the literal. -/
def literalBack (method : List Char) : List Char :=
  ')' :: '.' :: (method ++ ['(', ')'])

theorem getCollectionQuery_eq (q : Char) (body method : List Char) :
    getCollectionQuery (q :: (body ++ [q])) method =
      literalFront q ++ (body ++ q :: literalBack method) := by
  have hdatabase : "db.getCollection(".toList =
      'd' :: 'b' :: '.' :: ("getCollection".toList ++ ['(']) := by decide
  have hclose : ").".toList = [')', '.'] := by decide
  have hcall : "()".toList = ['(', ')'] := by decide
  delta getCollectionQuery literalFront literalBack
  rw [hdatabase, hclose, hcall]
  simp only [List.append_assoc, List.cons_append, List.nil_append]

section
variable (hq : Wrapper.isQuote q = true)

/-- The call up to its parenthesis. -/
def literalOpening (q : Char) (body method : List Char) : List Char :=
  literalFront q ++ (body ++ q :: ')' :: '.' :: method)

theorem literalFront_append (q : Char) (body method : List Char) :
    literalFront q ++ (body ++ q :: literalBack method) =
      literalOpening q body method ++ '(' :: [')'] := by
  simp only [literalOpening, literalBack, List.append_assoc, List.cons_append]

include hq in
theorem opening_literalOpening (hbody : q ∉ body) (hmethod : Call.MethodName method) :
    Call.Opening (literalOpening q body method) .getCollection (some body) method := by
  have hdot : Call.Dot ['.'] := .blanks .nil .nil
  have hopening := Call.Opening.getCollection hdot .nil .nil .nil hq hbody (.called hdot hmethod .nil)
  simpa only [literalOpening, literalFront, List.append_assoc, List.cons_append, List.nil_append,
    List.append_nil] using hopening

include hq in
theorem leads_literalFront : Leads (literalFront q) where
  line := by
    have hqbreak : '\n' ≠ q := by
      rintro rfl
      cases hq
    simp [literalFront, hqbreak]
  first := ⟨'d', rfl, rfl, by decide⟩
  last := ⟨q, by simp [literalFront], Wrapper.isBlank_of_isQuote hq⟩

include hq in
/-- A value that is a string between two quotes is one by the grammar. -/
theorem stringBody_of_parseValue {now : Int64} {s : String}
    (h : parseValue now (q :: (body ++ [q])) = .ok (.string s)) : StringBody q body s.toList := by
  have hblank := Wrapper.isBlank_of_isQuote hq
  have hquote : (decide (q = '"') || decide (q = '\'')) = true := hq
  have hbracket : q ≠ '{' ∧ q ≠ '[' := by rcases quote_cases hq with rfl | rfl <;> decide
  obtain ⟨⟨v, left'⟩, hread, hend⟩ := bind_eq_ok.1 h
  simp only [trimStart_cons hblank, readValue, value, hbracket, if_false, hquote, if_true] at hread
  obtain ⟨⟨text, left'⟩, hstring, hv⟩ := bind_eq_ok.1 hread
  cases hv
  obtain ⟨⟨chars, left⟩, hchars, hs⟩ := bind_eq_ok.1 hstring
  cases hs
  obtain ⟨body', hbody, hderives⟩ := StringBody.of_read hchars
  -- what follows the closing quote is blank, and the text ends in a quote
  by_cases hrest : trimStart left' = []
  · simp only [hrest, if_true, Except.ok.injEq, Value.string.injEq] at hend
    subst hend
    rcases List.eq_nil_or_concat left' with rfl | ⟨init, d, rfl⟩
    · obtain rfl : body = body' := List.append_cancel_right hbody
      rwa [String.toList_ofList]
    · have hends : body ++ [q] = (body' ++ q :: init) ++ [d] := by simpa using hbody
      have hlast : d = q := (List.singleton_inj.1 (List.append_inj' hends rfl).2).symm
      have hall := List.dropWhile_eq_nil_iff.1 hrest d (by simp)
      rw [hlast, hblank] at hall
      cases hall
  · simp [hrest] at hend

include hq in
/-- The name of the collection is what stands up to the next quote in the cleaned query. -/
theorem exists_collection {call : Call} {query left : List Char}
    (hclean : cleanQuery query = literalFront q ++ left) (h : Call.ofQuery query = .ok call)
    (hshape : call.shape = .getCollection) :
    ∃ name rest, call.collection = some (.ofList name) ∧ q ∉ name ∧ left = name ++ q :: rest := by
  obtain ⟨front, closer, tail, hcut⟩ := Call.ofQuery_eq_ok_iff.1 h
  have hopening := hcut.opening
  have hdot : Call.Dot ['.'] := .blanks .nil .nil
  generalize hcollection : call.collection.map String.toList = collection at hopening
  rw [hshape] at hopening
  cases hopening with
  | admin _ hmethod => simp [Call.adminMethods] at hmethod
  | @getCollection dot gap gap' gap'' name text method q' hdot' hgap hgap' hgap'' hq' hname htext =>
    have hread : Call.getCollection? (cleanQuery query) = some ⟨.getCollection, some name,
        call.method.toList, call.arguments.toList ++ closer :: tail⟩ :=
      Call.getCollection?_iff.2 ⟨dot, gap, gap', gap'', q', name, text, hdot', hgap, hgap', hgap'',
        hq', hname, htext, by rw [hcut.text]; simp, rfl, rfl⟩
    have hfront : literalFront q ++ left =
        'd' :: 'b' :: (['.'] ++ ("getCollection".toList ++ ('(' :: q :: left))) := by
      simp only [literalFront, List.cons_append, List.append_assoc, List.nil_append]
    have hopen : Wrapper.dropMark? '(' ('(' :: q :: left) = some (q :: left) := rfl
    rw [hclean, hfront, Call.getCollection?, Call.afterDatabase?_dot hdot rfl] at hread
    simp only [Option.bind_eq_bind, Option.bind_some, Wrapper.dropText?_append, hopen,
      trimStart_cons (Wrapper.isBlank_of_isQuote hq), Option.bind_eq_some_iff] at hread
    obtain ⟨⟨name', rest⟩, hstring, -, -, ⟨method', rest'⟩, -, hhead⟩ := hread
    simp only [Option.some.injEq, Call.Head.mk.injEq, true_and] at hhead
    obtain ⟨rfl, -⟩ := hhead
    obtain ⟨q'', -, hname', hleft⟩ := Call.plainString?_iff.1 hstring
    obtain ⟨rfl, rfl⟩ := List.cons.inj hleft
    obtain ⟨s, hs, rfl⟩ := Option.map_eq_some_iff.1 hcollection
    exact ⟨s.toList, rest, by rw [hs, String.ofList_toList], hname', rfl⟩

end

/--
The collection that is given by a string literal is the string that the literal denotes, if and only
if the literal is verbatim, whatever its quotes. A query with a verbatim literal that is not empty is
a call on that collection.

So an escape in a literal is never decoded, and a query may be run on another collection than the
literal says: every literal with a backslash is a counterexample, if the query is accepted.
-/
theorem collection_of_getCollection {now : Int64} {s : String} (hq : Wrapper.isQuote q = true)
    (hliteral : parseValue now (q :: (body ++ [q])) = .ok (.string s))
    (hmethod : Call.MethodName method) :
    (∀ call, Call.ofQuery (getCollectionQuery (q :: (body ++ [q])) method) = .ok call →
      call.shape = .getCollection → (call.collection = some s ↔ Verbatim body)) ∧
    (body ≠ [] → Verbatim body →
      Call.ofQuery (getCollectionQuery (q :: (body ++ [q])) method) =
        .ok ⟨.getCollection, some s, .ofList method, "", ""⟩) := by
  have hbody := stringBody_of_parseValue hq hliteral
  have hleads := leads_literalFront hq
  have hback : '\n' ∉ literalBack method := by
    simp [literalBack, hmethod.dottedName.break_not_mem]
  have hend : ∃ d ∈ (literalBack method).getLast?, isBlank d = false :=
    ⟨')', List.getLast?_eq_some_iff.2 ⟨')' :: '.' :: (method ++ ['(']), by simp [literalBack]⟩, rfl⟩
  -- a verbatim literal stands in the cleaned query, and its first quote is the closing one
  have hverbatim : Verbatim body → s.toList = body ∧ q ∉ body ∧
      cleanQuery (getCollectionQuery (q :: (body ++ [q])) method) =
        literalFront q ++ (body ++ q :: literalBack method) := by
    intro h
    rw [getCollectionQuery_eq]
    exact ⟨eq_of_backslash_not_mem hbody h.unescaped, quote_not_mem hbody h.unescaped,
      cleanQuery_of_verbatim hq hleads h hback hend⟩
  constructor
  · intro call hcall hshape
    constructor
    · intro hcollection
      obtain ⟨left, hleft⟩ := exists_cleanQuery_append (body ++ q :: literalBack method)
      have hclean := hleft hleads
      rw [← getCollectionQuery_eq] at hclean
      obtain ⟨name, rest, hname, hquote, rfl⟩ := exists_collection hq hclean hcall hshape
      obtain rfl : String.ofList name = s := Option.some.inj (hname.symm.trans hcollection)
      rw [String.toList_ofList] at hbody
      refine verbatim_of_isPrefix hq hleads hbody hback hquote ⟨rest, ?_⟩
      rw [← getCollectionQuery_eq, hclean]
      simp
    · intro h
      obtain ⟨hs, hquote, hclean⟩ := hverbatim h
      obtain ⟨name, rest, hname, hquote', heq⟩ := exists_collection hq hclean hcall hshape
      obtain ⟨rfl, -⟩ := eq_of_append_quote hquote hquote' heq
      rw [hname, ← hs, String.ofList_toList]
  · intro hne h
    obtain ⟨hs, hquote, hclean⟩ := hverbatim h
    have hclose : close? [')'] = some ⟨[], ')', []⟩ := rfl
    have hcall := Call.ofQuery_of_opening (hclean.trans (literalFront_append q body method))
      (opening_literalOpening hq hquote hmethod) hne
    rw [hclose] at hcall
    rw [hcall, ← hs, String.ofList_toList]
    rfl

/-- A name with a blank in it, and one with an escape. -/
theorem collection_of_getCollection_tab :
    Call.ofQuery (getCollectionQuery "\"a b\"".toList "find".toList) =
      .ok ⟨.getCollection, some "a b", "find", "", ""⟩ ∧
    parseValue 0 "'a\\tb'".toList = .ok (.string "a\tb") ∧
    ∃ call, Call.ofQuery (getCollectionQuery "'a\\tb'".toList "find".toList) = .ok call ∧
      call.shape = .getCollection ∧ call.collection ≠ some "a\tb" := by
  have hmethod : Call.MethodName "find".toList := by
    have hfind : "find".toList = 'f' :: ['i', 'n', 'd'] := by decide
    rw [hfind]
    exact .name (by decide +kernel) (by decide +kernel)
  have hblank : "\"a b\"".toList = '"' :: (['a', ' ', 'b'] ++ ['"']) := by decide
  have htab : "'a\\tb'".toList = '\'' :: (['a', '\\', 't', 'b'] ++ ['\'']) := by decide
  have hdenotes : parseValue 0 ('\'' :: (['a', '\\', 't', 'b'] ++ ['\''])) =
      .ok (.string "a\tb") := by rfl
  rw [hblank, htab]
  refine ⟨?_, hdenotes, ?_⟩
  · have hliteral : parseValue 0 ('"' :: (['a', ' ', 'b'] ++ ['"'])) = .ok (.string "a b") := by rfl
    have hverbatim : Verbatim ['a', ' ', 'b'] := ⟨by decide, by decide, by decide +kernel⟩
    rw [(collection_of_getCollection rfl hliteral hmethod).2 (by simp) hverbatim,
      String.ofList_toList]
  · have hcall : Call.ofQuery (getCollectionQuery ('\'' :: (['a', '\\', 't', 'b'] ++ ['\'']))
        "find".toList) = .ok ⟨.getCollection, some "a\\tb", "find", "", ""⟩ := by decide +kernel
    refine ⟨_, hcall, rfl, fun hcollection => ?_⟩
    have hiff := (collection_of_getCollection rfl hdenotes hmethod).1 _ hcall rfl
    exact (hiff.1 hcollection).unescaped (by decide)

end ShellQuery
