/-
  ShellQuery.Proofs.Span

  The search for the delimiter that closes a call begins after a parenthesis and sees what follows
  the call; the scan of its arguments by themselves begins after nothing and ends with them. The two
  find the same literals, each of them closed, and outside these the delimiters of the arguments match
  (`spans_of_closing`).
-/
import ShellQuery.Proofs.Extent.Passage
import ShellQuery.Span

namespace ShellQuery

open Text

variable {z : Zone} {last last' : Option Char} {offset depth : Nat} {cs taken rest : List Char}

/-! ## Where a literal ends -/

/-- Whether a zone lies in a literal with the given delimiter. -/
def Zone.Within (d : Char) : Zone → Prop
  | .code _ => False
  | .literal e _ => e = d
  | .escaped e _ => e = d

/-- A literal is left by its delimiter only. -/
theorem Zone.Within.next {d : Char} (h : z.Within d) (c : Char) :
    (z.next c).Within d ∨ c = d ∧ z.next c = .code (some d) := by
  cases z with
  | code last => cases h
  | literal e inClass =>
    obtain rfl : e = d := h
    simp only [Zone.next]
    split
    · exact .inl rfl
    · split
      · exact .inl rfl
      · split
        · exact .inl rfl
        · split
          · rename_i hclose
            simp only [Bool.and_eq_true, decide_eq_true_eq] at hclose
            exact .inr ⟨hclose.1, rfl⟩
          · exact .inl rfl
  | escaped e inClass => exact .inl h

theorem Zone.Within.isCode {d : Char} (h : z.Within d) : z.isCode = false := by
  cases z with
  | code last => cases h
  | literal => rfl
  | escaped => rfl

theorem Zone.run_cons (z : Zone) (c : Char) (cs : List Char) :
    z.run (c :: cs) = (z.next c).run cs := rfl

theorem endLiteral?_of_inside {d : Char} (h : Inside d z taken) (rest : List Char) :
    endLiteral? z (taken ++ rest) = some (taken, rest) := by
  induction h with
  | close hz hclose =>
    rw [List.singleton_append, endLiteral?, hclose]
    rfl
  | cons hz hrest ih =>
    rw [List.cons_append, endLiteral?, if_neg (by simp [hrest.isCode]), ih]
    rfl

theorem inside_of_endLiteral? {d : Char} (hz : z.Within d)
    (h : endLiteral? z cs = some (taken, rest)) : cs = taken ++ rest ∧ Inside d z taken := by
  induction cs generalizing z taken with
  | nil => cases h
  | cons c cs ih =>
    rw [endLiteral?] at h
    rcases hz.next c with hnext | ⟨rfl, hnext⟩
    · rw [if_neg (by simp [hnext.isCode])] at h
      obtain ⟨⟨taken', rest'⟩, htaken, heq⟩ := Option.map_eq_some_iff.1 h
      cases heq
      obtain ⟨rfl, hinside⟩ := ih hnext htaken
      exact ⟨rfl, .cons hz.isCode hinside⟩
    · rw [hnext] at h
      cases h
      exact ⟨rfl, .close hz.isCode hnext⟩

/-- In a literal that is never closed, no place is code. -/
theorem isCode_of_endLiteral?_eq_none {d : Char} (hz : z.Within d) (h : endLiteral? z cs = none)
    {front : List Char} (hfront : front <+: cs) : (z.run front).isCode = false := by
  induction front generalizing z cs with
  | nil => exact hz.isCode
  | cons c front ih =>
    obtain ⟨back, rfl⟩ := hfront
    rw [List.cons_append, endLiteral?] at h
    rcases hz.next c with hnext | ⟨-, hnext⟩
    · rw [if_neg (by simp [hnext.isCode]), Option.map_eq_none_iff] at h
      exact ih hnext h (List.prefix_append front back)
    · rw [hnext] at h
      cases h

theorem Inside.isCode_run {d : Char} (h : Inside d z taken) {front back : List Char} {c : Char}
    (htaken : taken = front ++ c :: back) : (z.run front).isCode = false := by
  induction h generalizing front with
  | close hz =>
    cases front with
    | nil => exact hz
    | cons => simp at htaken
  | cons hz hrest ih =>
    cases front with
    | nil => exact hz
    | cons e front =>
      obtain ⟨rfl, hcs⟩ := List.cons.inj htaken
      exact ih hcs

theorem Inside.run_eq {d : Char} (h : Inside d z taken) : z.run taken = .code (some d) :=
  (Passes.of_inside h).run_eq

/-- The search for a closer ends with the text in a literal that is never closed. -/
theorem closeFrom?_of_endLiteral?_eq_none {d : Char} (hz : z.Within d)
    (h : endLiteral? z cs = none) : closeFrom? z depth cs = none := by
  induction cs generalizing z with
  | nil => rfl
  | cons c cs ih =>
    rw [endLiteral?] at h
    rcases hz.next c with hnext | ⟨-, hnext⟩
    · rw [if_neg (by simp [hnext.isCode]), Option.map_eq_none_iff] at h
      simp [closeFrom?, hz.isCode, ih hnext h]
    · rw [hnext] at h
      cases h

theorem brackets_of_opens {c : Char} (h : Zone.opensLiteral last c = true) :
    isOpener c = false ∧ isCloser c = false := by
  simp only [Zone.opensLiteral, Bool.or_eq_true, Bool.and_eq_true, decide_eq_true_eq] at h
  rcases h with (rfl | rfl) | ⟨rfl, -⟩ <;> exact ⟨rfl, rfl⟩

theorem next_of_opens {c : Char} (h : Zone.opensLiteral last c = true) :
    (Zone.code last).next c = .literal c false := by
  simp [Zone.next, h]

theorem within_of_opens {c : Char} : (Zone.literal c false).Within c := rfl

/-! ## Spans -/

namespace Span

/-- The same literal in a text with more bytes in front. -/
def shift (n : Nat) (s : Span) : Span :=
  ⟨s.start + n, s.stop + n⟩

/-- Whether a byte lies in a literal. -/
def Covers (s : Span) (offset : Nat) : Prop :=
  s.start ≤ offset ∧ offset < s.stop

instance (s : Span) (offset : Nat) : Decidable (s.Covers offset) :=
  inferInstanceAs (Decidable (_ ∧ _))

/-- Whether a span of a text is a literal with the delimiter that closes it. -/
def Closes (s : Span) (text : List Char) : Prop :=
  ∃ front d body back, text = front ++ d :: (body ++ back) ∧ Inside d (.literal d false) body ∧
    s = ⟨byteLength front, byteLength (front ++ d :: body)⟩

end Span

/-! ## What the scan of the arguments finds -/

theorem byteLength_cons (c : Char) (cs : List Char) :
    byteLength (c :: cs) = c.utf8Size + byteLength cs := rfl

theorem spansFrom_of_closed {c : Char} (hopens : Zone.opensLiteral last c = true)
    (hend : endLiteral? (.literal c false) cs = some (taken, rest)) :
    spansFrom last offset (c :: cs) = ⟨offset, offset + byteLength (c :: taken)⟩ ::
      spansFrom (some c) (offset + byteLength (c :: taken)) rest := by
  rw [spansFrom, if_pos hopens]
  split
  · rename_i hnone
    cases hnone.symm.trans hend
  · rename_i hsome
    cases hsome.symm.trans hend
    rfl

theorem spansFrom_of_open {c : Char} (hopens : Zone.opensLiteral last c = true)
    (hend : endLiteral? (.literal c false) cs = none) :
    spansFrom last offset (c :: cs) = [⟨offset, offset + byteLength (c :: cs)⟩] := by
  rw [spansFrom, if_pos hopens]
  split
  · rfl
  · rename_i hsome
    cases hsome.symm.trans hend

theorem spansFrom_of_code {c : Char} (hopens : Zone.opensLiteral last c = false) :
    spansFrom last offset (c :: cs) =
      spansFrom (Zone.lastAfter last c) (offset + c.utf8Size) cs := by
  rw [spansFrom, if_neg (by simp [hopens])]

/-- What stands in front of a text counts only as to whether a value may start after it. -/
theorem spansFrom_congr (h : Zone.valueMayStart last = Zone.valueMayStart last') :
    spansFrom last offset cs = spansFrom last' offset cs := by
  induction cs generalizing last last' offset with
  | nil => simp [spansFrom]
  | cons c cs ih =>
    have hopens : Zone.opensLiteral last c = Zone.opensLiteral last' c := by
      simp only [Zone.opensLiteral, h]
    cases hc : Zone.opensLiteral last c with
    | true =>
      -- after the literal both scans have its delimiter in front
      have hc' : Zone.opensLiteral last' c = true := hopens ▸ hc
      cases hend : endLiteral? (.literal c false) cs with
      | none => rw [spansFrom_of_open hc hend, spansFrom_of_open hc' hend]
      | some cut => rw [spansFrom_of_closed hc hend, spansFrom_of_closed hc' hend]
    | false =>
      rw [spansFrom_of_code hc, spansFrom_of_code (hopens ▸ hc)]
      refine ih ?_
      unfold Zone.lastAfter
      split
      · exact h
      · rfl

/-- More bytes in front of a text shift its literals. -/
theorem spansFrom_add (last : Option Char) (offset n : Nat) (cs : List Char) :
    spansFrom last (offset + n) cs = (spansFrom last offset cs).map (.shift n) := by
  fun_induction spansFrom last offset cs with
  | case1 => simp [spansFrom]
  | case2 last offset c cs hopens hend =>
    rw [spansFrom_of_open hopens hend, List.map_singleton, Span.shift]
    simp only [List.cons.injEq, Span.mk.injEq, and_true, true_and]
    omega
  | case3 last offset c cs hopens taken rest hend ih =>
    rw [spansFrom_of_closed hopens hend, List.map_cons, ← ih, Span.shift, Nat.add_right_comm]
  | case4 last offset c cs hopens ih =>
    rw [spansFrom_of_code (by simpa using hopens), ← ih]
    congr 1
    omega

/-- The literals of a text begin in it. -/
theorem le_start_of_mem_spansFrom {s : Span} (h : s ∈ spansFrom last offset cs) :
    offset ≤ s.start := by
  fun_induction spansFrom last offset cs with
  | case1 => cases h
  | case2 last offset c cs hopens hend =>
    cases List.mem_singleton.1 h
    exact Nat.le_refl _
  | case3 last offset c cs hopens taken rest hend ih =>
    rcases List.mem_cons.1 h with rfl | h
    · exact Nat.le_refl _
    · exact Nat.le_trans (Nat.le_add_right _ _) (ih h)
  | case4 last offset c cs hopens ih => exact Nat.le_trans (Nat.le_add_right _ _) (ih h)

/-- Where a text ends in code, each of its literals is closed. -/
theorem closes_of_mem_spansFrom {text front : List Char} {s : Span}
    (hcode : ((Zone.code last).run cs).isCode = true) (htext : text = front ++ cs)
    (hoffset : offset = byteLength front) (h : s ∈ spansFrom last offset cs) : s.Closes text := by
  fun_induction spansFrom last offset cs generalizing front with
  | case1 => cases h
  | case2 last offset c cs hopens hend =>
    -- a literal without an end goes on to the end of the text, which is in code
    have hnot := isCode_of_endLiteral?_eq_none within_of_opens hend (List.prefix_rfl)
    rw [Zone.run_cons, next_of_opens hopens] at hcode
    exact absurd hcode (by simp [hnot])
  | case3 last offset c cs hopens taken rest hend ih =>
    obtain ⟨rfl, hinside⟩ := inside_of_endLiteral? within_of_opens hend
    rcases List.mem_cons.1 h with rfl | h
    · refine ⟨front, c, taken, rest, htext, hinside, ?_⟩
      simp only [hoffset, byteLength_append]
    · have hfront : text = (front ++ c :: taken) ++ rest := by simp [htext]
      refine ih ?_ hfront ?_ h
      · rw [Zone.run_cons, next_of_opens hopens] at hcode
        have hrun := Zone.run_append (.literal c false) taken rest
        rw [hinside.run_eq] at hrun
        exact hrun ▸ hcode
      · simp only [hoffset, byteLength_append]
  | case4 last offset c cs hopens ih =>
    have hfront : text = (front ++ [c]) ++ cs := by simp [htext]
    refine ih ?_ hfront ?_ h
    · rw [Zone.run_cons, Zone.next_code_of_not_opens (by simpa using hopens)] at hcode
      exact hcode
    · rw [hoffset, byteLength_append]
      rfl

/-! ## What the search for the closing delimiter finds -/

/-- The byte of the delimiter at which a text is cut, and the literals in front of it. -/
def Closed.found (last : Option Char) (offset : Nat) (cut : Closed) : Nat × List Span :=
  (offset + byteLength cut.inside, spansFrom last offset cut.inside)

theorem Closed.found_push {c : Char} (hopens : Zone.opensLiteral last c = false) (cut : Closed) :
    (cut.push c).found last offset = cut.found (Zone.lastAfter last c) (offset + c.utf8Size) := by
  simp only [found, push, byteLength_cons, spansFrom_of_code hopens, Nat.add_assoc]

theorem Closed.found_prepend {d : Char} (hopens : Zone.opensLiteral last d = true)
    (hinside : Inside d (.literal d false) taken) (cut : Closed) :
    (cut.prepend (d :: taken)).found last offset =
      ((cut.found (some d) (offset + byteLength (d :: taken))).1,
        ⟨offset, offset + byteLength (d :: taken)⟩ ::
          (cut.found (some d) (offset + byteLength (d :: taken))).2) := by
  simp only [found, prepend, List.cons_append,
    spansFrom_of_closed hopens (endLiteral?_of_inside hinside cut.inside)]
  rw [← List.cons_append, byteLength_append, Nat.add_assoc]

theorem lastAfter_of_bracket {c : Char} (h : isOpener c = true ∨ isCloser c = true)
    (hopens : Zone.opensLiteral last c = false) : Zone.lastAfter last c = some c := by
  have hnext := Zone.next_code_of_not_opens hopens
  rcases h with h | h
  · exact (Zone.code.inj ((Zone.next_code_opener h).symm.trans hnext)).symm
  · exact (Zone.code.inj ((Zone.next_code_closer h).symm.trans hnext)).symm

theorem closeFrom?_opener {c : Char} (h : isOpener c = true) :
    closeFrom? (.code last) depth (c :: cs) =
      (closeFrom? (.code (some c)) (depth + 1) cs).map (.push c) := by
  simp [closeFrom?, Zone.isCode, h, Zone.next_code_opener h]

theorem closeFrom?_closer {c : Char} (hopener : isOpener c = false) (h : isCloser c = true) :
    closeFrom? (.code last) (depth + 1) (c :: cs) =
      (closeFrom? (.code (some c)) depth cs).map (.push c) := by
  simp [closeFrom?, Zone.isCode, hopener, h, Zone.next_code_closer h]

theorem closeFrom?_other {c : Char} (hopens : Zone.opensLiteral last c = false)
    (hopener : isOpener c = false) (hcloser : isCloser c = false) :
    closeFrom? (.code last) depth (c :: cs) =
      (closeFrom? (.code (Zone.lastAfter last c)) depth cs).map (.push c) := by
  simp [closeFrom?, hopener, hcloser, Zone.next_code_of_not_opens hopens]

/-- The search with a nesting stops where the text is cut, and passes over the literals of what is cut
    out. -/
theorem closingFrom?_eq {nesting : Nat} (hnesting : nesting = depth + 1) :
    closingFrom? last offset nesting cs =
      (closeFrom? (.code last) depth cs).map (Closed.found last offset) := by
  fun_induction closingFrom? last offset nesting cs generalizing depth with
  | case1 => rfl
  | case2 last offset nesting c cs hopens hend =>
    obtain ⟨hopener, hcloser⟩ := brackets_of_opens hopens
    simp [closeFrom?, hopener, hcloser, next_of_opens hopens,
      closeFrom?_of_endLiteral?_eq_none within_of_opens hend]
  | case3 last offset nesting c cs hopens taken rest hend ih =>
    -- a literal is passed as a whole
    obtain ⟨rfl, hinside⟩ := inside_of_endLiteral? within_of_opens hend
    obtain ⟨hopener, hcloser⟩ := brackets_of_opens hopens
    have hpass : Passes (.code last) (c :: taken) (.code (some c)) :=
      .cons (by simp [hopener, hcloser]) (next_of_opens hopens ▸ .of_inside hinside)
    rw [← List.cons_append, hpass.close_eq, ih hnesting, Option.map_map, Option.map_map]
    congr 1
    funext cut
    exact (Closed.found_prepend hopens hinside cut).symm
  | case4 last offset nesting c cs hopens hopener ih =>
    rw [Bool.not_eq_true] at hopens
    rw [ih (congrArg (· + 1) hnesting), closeFrom?_opener hopener, Option.map_map]
    congr 1
    funext cut
    rw [Function.comp_apply, Closed.found_push hopens, lastAfter_of_bracket (.inl hopener) hopens]
  | case5 last offset nesting c cs hopens hopener hcloser hdepth =>
    obtain rfl : depth = 0 := by omega
    simp [closeFrom?, Zone.isCode, hopener, hcloser, Closed.found, byteLength, spansFrom]
  | case6 last offset nesting c cs hopens hopener hcloser hdepth ih =>
    obtain ⟨depth, rfl⟩ : ∃ d, depth = d + 1 := ⟨depth - 1, by omega⟩
    rw [Bool.not_eq_true] at hopens hopener
    have hless : nesting - 1 = depth + 1 := by omega
    rw [ih hless, closeFrom?_closer hopener hcloser, Option.map_map]
    congr 1
    funext cut
    rw [Function.comp_apply, Closed.found_push hopens, lastAfter_of_bracket (.inr hcloser) hopens]
  | case7 last offset nesting c cs hopens hopener hcloser ih =>
    rw [Bool.not_eq_true] at hopens hopener hcloser
    rw [ih hnesting, closeFrom?_other hopens hopener hcloser, Option.map_map]
    congr 1
    funext cut
    exact (Closed.found_push hopens cut).symm

/-- The search for the closing delimiter stops where the text is cut. The literals that it passes
    over are those of what is cut out. -/
theorem closing?_eq (openAt : Nat) (rest : List Char) : closing? openAt rest =
    (close? rest).map fun cut =>
      (openAt + 1 + byteLength cut.inside, (spans cut.inside).map (.shift (openAt + 1))) := by
  have hopened : closing? openAt rest = closingFrom? (some '(') (openAt + 1) 1 rest := by
    rw [closing?, closingFrom?]
    rfl
  rw [hopened, closingFrom?_eq rfl, close?]
  congr 1
  funext cut
  -- after the parenthesis a value may start, as it may where there is nothing in front
  have hstart : spansFrom (some '(') (openAt + 1) cut.inside =
      spansFrom none (openAt + 1) cut.inside := spansFrom_congr rfl
  simp only [Closed.found, hstart, spans, ← spansFrom_add, Nat.zero_add]

/-! ## What lies outside the literals -/

namespace Zone

/-- Whether a character is code: it is no part of a literal, nor does it open one. -/
def readsCode (z : Zone) (c : Char) : Bool :=
  z.isCode && (z.next c).isCode

/-- The characters of a text that are code, where `z` is the zone it begins in. -/
def codeOf (z : Zone) : List Char → List Char
  | [] => []
  | c :: cs => if z.readsCode c then c :: (z.next c).codeOf cs else (z.next c).codeOf cs

theorem readsCode_of_not_isCode (h : z.isCode = false) (c : Char) : z.readsCode c = false := by
  rw [readsCode, h, Bool.false_and]

theorem readsCode_of_opens {c : Char} (h : opensLiteral last c = true) :
    (code last).readsCode c = false := by
  rw [readsCode, next_of_opens h]
  rfl

theorem readsCode_of_not_opens {c : Char} (h : opensLiteral last c = false) :
    (code last).readsCode c = true := by
  rw [readsCode, next_code_of_not_opens h]
  rfl

end Zone

/-- The characters of a text, from byte `offset` on, that lie in none of some literals. -/
def outside (literals : List Span) (offset : Nat) : List Char → List Char
  | [] => []
  | c :: cs =>
    if ∃ s ∈ literals, s.Covers offset then outside literals (offset + c.utf8Size) cs
    else c :: outside literals (offset + c.utf8Size) cs

/-- A character lies in one of the literals if and only if it is not code. -/
theorem covers_spansFrom_iff {front back : List Char} {c : Char} (hcs : cs = front ++ c :: back) :
    (∃ s ∈ spansFrom last offset cs, s.Covers (offset + byteLength front)) ↔
      ((Zone.code last).run front).readsCode c = false := by
  fun_induction spansFrom last offset cs generalizing front with
  | case1 => simp at hcs
  | case2 last offset d cs hopens hend =>
    -- a literal that is not closed covers everything
    have hcovers : (⟨offset, offset + byteLength (d :: cs)⟩ : Span).Covers
        (offset + byteLength front) := by
      have hsize := c.utf8Size_pos
      rw [hcs, byteLength_append, byteLength_cons]
      constructor <;> dsimp only <;> omega
    refine iff_of_true ⟨_, .head _, hcovers⟩ ?_
    cases front with
    | nil =>
      obtain ⟨rfl, -⟩ := List.cons.inj hcs
      exact Zone.readsCode_of_opens hopens
    | cons e front =>
      obtain ⟨rfl, rfl⟩ := List.cons.inj hcs
      rw [Zone.run_cons, next_of_opens hopens]
      exact Zone.readsCode_of_not_isCode
        (isCode_of_endLiteral?_eq_none within_of_opens hend (List.prefix_append front _)) c
  | case3 last offset d cs hopens taken rest hend ih =>
    obtain ⟨rfl, hinside⟩ := inside_of_endLiteral? within_of_opens hend
    -- either the character is in this literal, or it is behind it
    have hsplit : (∃ tail, d :: taken = front ++ c :: tail) ∨
        ∃ front', front = d :: taken ++ front' ∧ rest = front' ++ c :: back := by
      rw [← List.cons_append] at hcs
      rcases List.append_eq_append_iff.1 hcs with ⟨front', rfl, hrest⟩ | ⟨tail, htaken, hback⟩
      · exact .inr ⟨front', rfl, hrest⟩
      · cases tail with
        | nil => exact .inr ⟨[], by simpa using htaken.symm, by simpa using hback.symm⟩
        | cons e tail =>
          obtain ⟨rfl, -⟩ := List.cons.inj hback
          exact .inl ⟨tail, htaken⟩
    rcases hsplit with ⟨tail, htaken⟩ | ⟨front', rfl, rfl⟩
    · have hcovers : (⟨offset, offset + byteLength (d :: taken)⟩ : Span).Covers
          (offset + byteLength front) := by
        have hsize := c.utf8Size_pos
        rw [htaken, byteLength_append, byteLength_cons]
        constructor <;> dsimp only <;> omega
      refine iff_of_true ⟨_, .head _, hcovers⟩ ?_
      cases front with
      | nil =>
        obtain ⟨rfl, -⟩ := List.cons.inj htaken
        exact Zone.readsCode_of_opens hopens
      | cons e front =>
        obtain rfl := (List.cons.inj htaken).1
        rw [Zone.run_cons, next_of_opens hopens]
        exact Zone.readsCode_of_not_isCode (hinside.isCode_run (List.cons.inj htaken).2) c
    · have hrun : (Zone.code last).run (d :: taken ++ front') = (Zone.code (some d)).run front' := by
        rw [Zone.run_append, Zone.run_cons, next_of_opens hopens, hinside.run_eq]
      simp only [hrun, ← ih rfl, byteLength_append, ← Nat.add_assoc, List.mem_cons, or_and_right,
        exists_or, exists_eq_left]
      refine or_iff_right fun hcovers => ?_
      have hless : offset + byteLength (d :: taken) + byteLength front' <
          offset + byteLength (d :: taken) := hcovers.2
      omega
  | case4 last offset d cs hopens ih =>
    rw [Bool.not_eq_true] at hopens
    cases front with
    | nil =>
      obtain ⟨rfl, rfl⟩ := List.cons.inj hcs
      refine iff_of_false ?_ (by simp [Zone.run, Zone.readsCode_of_not_opens hopens])
      rintro ⟨s, hs, hcovers, -⟩
      have hstart := le_start_of_mem_spansFrom hs
      have hsize := d.utf8Size_pos
      simp only [byteLength, List.foldr_nil] at hcovers
      omega
    | cons e front =>
      obtain ⟨rfl, rfl⟩ := List.cons.inj hcs
      rw [byteLength_cons, ← Nat.add_assoc, Zone.run_cons, Zone.next_code_of_not_opens hopens]
      exact ih rfl

theorem outside_eq {literals : List Span} (h : ∀ front c back, cs = front ++ c :: back →
    ((∃ s ∈ literals, s.Covers (offset + byteLength front)) ↔ (z.run front).readsCode c = false)) :
    outside literals offset cs = z.codeOf cs := by
  induction cs generalizing z offset with
  | nil => rfl
  | cons c cs ih =>
    have hhead : (∃ s ∈ literals, s.Covers offset) ↔ z.readsCode c = false := h [] c cs rfl
    have htail : outside literals (offset + c.utf8Size) cs = (z.next c).codeOf cs := by
      refine ih fun front d back hcs => ?_
      rw [Nat.add_assoc]
      exact h (c :: front) d back (congrArg (c :: ·) hcs)
    simp only [outside, hhead, Zone.codeOf, htail]
    cases z.readsCode c <;> rfl

/-- Outside the literals of a text lies its code. -/
theorem outside_spansFrom (last : Option Char) (offset : Nat) (cs : List Char) :
    outside (spansFrom last offset cs) offset cs = (Zone.code last).codeOf cs :=
  outside_eq fun _ _ _ hcs => covers_spansFrom_iff hcs

/-! ## Delimiters that match -/

theorem isCloser_of_isOpener {c : Char} (h : isOpener c = true) : isCloser c = false := by
  simp only [isOpener, Bool.or_eq_true, decide_eq_true_eq] at h
  rcases h with (rfl | rfl) | rfl <;> rfl

theorem Zone.exists_of_isCode (h : z.isCode = true) : ∃ last, z = .code last := by
  cases z with
  | code last => exact ⟨last, rfl⟩
  | literal => cases h
  | escaped => cases h

/-- Whether the delimiters of a text match, but for `depth` closers that are left over: no front of
    it has more closers than openers and these. -/
structure BalancedFrom (depth : Nat) (cs : List Char) : Prop where
  front_le : ∀ front, front <+: cs → front.countP isCloser ≤ front.countP isOpener + depth
  total : cs.countP isCloser = cs.countP isOpener + depth

/-- Whether the delimiters of a text match. -/
def Balanced (cs : List Char) : Prop :=
  BalancedFrom 0 cs

namespace BalancedFrom

theorem nil : BalancedFrom 0 [] where
  front_le front h := by simp [List.prefix_nil.1 h]
  total := rfl

/-- One more character in front changes the number of closers that are left over by what it is. -/
theorem cons {c : Char} {depth' : Nat} (h : BalancedFrom depth' cs)
    (hc : depth' + (if isCloser c then 1 else 0) = depth + if isOpener c then 1 else 0) :
    BalancedFrom depth (c :: cs) where
  front_le front hfront := by
    rcases List.prefix_cons_iff.1 hfront with rfl | ⟨front', rfl, hfront'⟩
    · simp
    · have hle := h.front_le front' hfront'
      rw [List.countP_cons, List.countP_cons]
      omega
  total := by
    have htotal := h.total
    rw [List.countP_cons, List.countP_cons]
    omega

end BalancedFrom

/-- Where a text is cut, the delimiters of its code match, but for one closer for each that was open
    already, and the text in front of the cut ends in code. -/
theorem balancedFrom_of_closeFrom? {cut : Closed} (h : closeFrom? z depth cs = some cut) :
    BalancedFrom depth (z.codeOf cut.inside) ∧ (z.run cut.inside).isCode = true := by
  induction cs generalizing z depth cut with
  | nil => cases h
  | cons c cs ih =>
    unfold closeFrom? at h
    split at h
    · -- an opener: one more closer is left over behind it
      rename_i hopen
      obtain ⟨hcode, hopener⟩ := Bool.and_eq_true_iff.1 hopen
      obtain ⟨last, rfl⟩ := Zone.exists_of_isCode hcode
      obtain ⟨rest, hrest, rfl⟩ := Option.map_eq_some_iff.1 h
      obtain ⟨hbalanced, hends⟩ := ih hrest
      have hreads : (Zone.code last).readsCode c = true := by
        rw [Zone.readsCode, Zone.next_code_opener hopener]
        rfl
      refine ⟨?_, hends⟩
      rw [Closed.push, Zone.codeOf, if_pos hreads]
      exact hbalanced.cons (by simp [hopener, isCloser_of_isOpener hopener])
    · rename_i hopen
      split at h
      · rename_i hclose
        obtain ⟨hcode, hcloser⟩ := Bool.and_eq_true_iff.1 hclose
        have hopener : isOpener c = false := by simpa [hcode] using hopen
        -- a closer: at depth zero the text is cut in front of it, else it closes an open one
        cases depth with
        | zero =>
          cases h
          exact ⟨.nil, hcode⟩
        | succ depth =>
          obtain ⟨last, rfl⟩ := Zone.exists_of_isCode hcode
          obtain ⟨rest, hrest, rfl⟩ := Option.map_eq_some_iff.1 h
          obtain ⟨hbalanced, hends⟩ := ih hrest
          have hreads : (Zone.code last).readsCode c = true := by
            rw [Zone.readsCode, Zone.next_code_closer hcloser]
            rfl
          refine ⟨?_, hends⟩
          rw [Closed.push, Zone.codeOf, if_pos hreads]
          exact hbalanced.cons (by simp [hopener, hcloser])
      · rename_i hclose
        obtain ⟨rest, hrest, rfl⟩ := Option.map_eq_some_iff.1 h
        obtain ⟨hbalanced, hends⟩ := ih hrest
        refine ⟨?_, hends⟩
        rw [Closed.push, Zone.codeOf]
        split
        · rename_i hreads
          -- what is read as code here is no delimiter
          have hcode : z.isCode = true := (Bool.and_eq_true_iff.1 hreads).1
          rw [hcode, Bool.true_and, Bool.not_eq_true] at hopen hclose
          exact hbalanced.cons (by simp [hopen, hclose])
        · -- inside a literal or a comment nothing is counted
          exact hbalanced

/-! ## Literals of the arguments of a call -/

/-- The search for the delimiter that closes a call and the scan of its arguments see the same
    literals. Wherever the search succeeds, it stops at a closing delimiter, the literals of the text
    between that and the parenthesis are those that it has passed over, at the same bytes, and each
    of them is closed. Outside them the delimiters of that text match, and a character lies in one of
    them if and only if the replacement of wrapper calls, which reads the text by itself, takes it for
    no code. -/
theorem spans_of_closing {before rest : List Char} {closeAt : Nat} {passed : List Span}
    (h : closing? (byteLength before) rest = some (closeAt, passed)) :
    ∃ arguments closer after, close? rest = some ⟨arguments, closer, after⟩ ∧
      rest = arguments ++ closer :: after ∧ isCloser closer = true ∧
      closeAt = byteLength (before ++ '(' :: arguments) ∧
      (spans arguments).map (.shift (byteLength (before ++ ['(']))) = passed ∧
      (∀ s ∈ spans arguments, s.Closes arguments) ∧
      Balanced (outside (spans arguments) 0 arguments) ∧
      ∀ front c back, arguments = front ++ c :: back →
        ((∃ s ∈ spans arguments, s.Covers (byteLength front)) ↔
          (Zone.start.run front).readsCode c = false) := by
  rw [closing?_eq] at h
  obtain ⟨⟨arguments, closer, after⟩, hclose, hfound⟩ := Option.map_eq_some_iff.1 h
  cases hfound
  obtain ⟨hbalanced, hends⟩ := balancedFrom_of_closeFrom? hclose
  have hopened : byteLength (before ++ ['(']) = byteLength before + 1 := byteLength_append before ['(']
  -- a parenthesis in front is like nothing in front
  have hspans : spans arguments = spansFrom (some '(') 0 arguments := spansFrom_congr rfl
  refine ⟨arguments, closer, after, hclose, eq_of_closeFrom? hclose, isCloser_of_closeFrom? hclose,
    ?_, ?_, ?_, ?_, ?_⟩
  · rw [byteLength_append, byteLength_cons]
    exact Nat.add_assoc _ 1 _
  · rw [hopened]
  · intro s hs
    rw [hspans] at hs
    exact closes_of_mem_spansFrom hends (List.nil_append _).symm rfl hs
  · rw [hspans, outside_spansFrom]
    exact hbalanced
  · intro front c back harguments
    have hcovers : (∃ s ∈ spansFrom none 0 arguments, s.Covers (0 + byteLength front)) ↔ _ :=
      covers_spansFrom_iff harguments
    rwa [Nat.zero_add] at hcovers

/-- Arguments with a string that holds a parenthesis and an escape before a character of two bytes,
    and with a regular expression that holds a quote, and a slash in a class. -/
def quotedArguments : List Char :=
  "\x7ba: \"x(\\é\", b: /[/)]'/i\x7d".toList

theorem closing?_quotedArguments :
    closing? (byteLength "db.c.find".toList) (quotedArguments ++ ").limit(1)".toList) =
      some (35, [⟨14, 21⟩, ⟨26, 33⟩]) := by
  rw [closing?_eq]
  decide +kernel

theorem spans_of_closing_quoted :
    closing? (byteLength "db.c.find".toList) (quotedArguments ++ ").limit(1)".toList) =
        some (35, [⟨14, 21⟩, ⟨26, 33⟩]) ∧
      (spans quotedArguments).map (Span.shift 10) = [⟨14, 21⟩, ⟨26, 33⟩] ∧
      (∀ s ∈ spans quotedArguments, s.Closes quotedArguments) ∧
      Balanced (outside (spans quotedArguments) 0 quotedArguments) := by
  obtain ⟨arguments, closer, after, hclose, -, -, -, hspans, hcloses, hbalanced, -⟩ :=
    spans_of_closing closing?_quotedArguments
  have hcut : close? (quotedArguments ++ ").limit(1)".toList) =
      some ⟨quotedArguments, ')', ".limit(1)".toList⟩ := by
    decide +kernel
  obtain rfl : arguments = quotedArguments :=
    congrArg Closed.inside (Option.some.inj (hclose.symm.trans hcut))
  exact ⟨closing?_quotedArguments, hspans, hcloses, hbalanced⟩

end ShellQuery
