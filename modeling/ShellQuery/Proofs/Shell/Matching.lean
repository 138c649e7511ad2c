/-
  ShellQuery.Proofs.Shell.Matching

  When a rule of the normalizer matches. A match is `new` and blanks, if they are there, the name of
  the wrapper, blanks and an opening parenthesis, and then what the rule takes for its arguments
  (`match?_eq_some`). So nothing matches where another character comes before the first parenthesis
  (`Uncalled`), and a match that begins inside a literal has the name and the parenthesis there.
-/
import Mathlib.Data.List.TakeWhile
import ShellQuery.Proofs.Shell.Syntax
import ShellQuery.Proofs.Text

namespace ShellQuery.Wrapper

open Text Shell

variable {w : Wrapper} {before : Option Char} {c mark : Char}
  {cs ws rest literal gap args front : List Char}

/-! ## Pieces of a match -/

theorem dropText?_eq_some (h : dropText? ws cs = some rest) : cs = ws ++ rest := by
  fun_induction dropText? ws cs with
  | case1 => cases h; rfl
  | case2 => cases h
  | case3 w ws cs ih => rw [ih h]; rfl
  | case4 => cases h

theorem dropText?_append (ws rest : List Char) : dropText? ws (ws ++ rest) = some rest := by
  induction ws with
  | nil => rfl
  | cons w ws ih => simpa [dropText?] using ih

/-- A mark may have blanks in front of it. -/
theorem dropMark?_eq_some (h : dropMark? mark cs = some rest) :
    ∃ gap, Blanks gap ∧ cs = gap ++ mark :: rest := by
  obtain ⟨gap, hgap, hcs⟩ := eq_blanks_append_trimStart cs
  simp only [dropMark?] at h
  split at h
  · cases h
  · rename_i c tail htrim
    split at h
    · rename_i hc
      cases h
      exact ⟨gap, hgap, by rw [hcs, htrim, hc]⟩
    · cases h

theorem dropMark?_blanks_append (hgap : Blanks gap) (hmark : isBlank mark = false) :
    dropMark? mark (gap ++ mark :: rest) = some rest := by
  simp [dropMark?, trimStart_blanks_append hgap, trimStart_cons hmark]

/-- Where something else stands first, there is no mark to drop. -/
theorem dropMark?_blanks_append_of_ne (hgap : Blanks gap) (hc : isBlank c = false)
    (hne : c ≠ mark) : dropMark? mark (gap ++ c :: rest) = none := by
  simp [dropMark?, trimStart_blanks_append hgap, trimStart_cons hc, hne]

/-- A run is not empty, and goes on as long as its class. -/
theorem run?_eq_some {p : Char → Bool} {taken : List Char} (h : run? p cs = some (taken, rest)) :
    taken = cs.takeWhile p ∧ taken ≠ [] ∧ rest = cs.dropWhile p := by
  simp only [run?] at h
  split at h
  · cases h
  · rename_i htaken
    cases h
    exact ⟨rfl, htaken, rfl⟩

/-- A run of a class is taken in front of a text that does not continue it. -/
theorem run?_append {p : Char → Bool} {taken : List Char} (hne : taken ≠ [])
    (hp : ∀ c ∈ taken, p c = true) (hrest : ∀ c ∈ rest.head?, p c = false) :
    run? p (taken ++ rest) = some (taken, rest) := by
  have hstop : rest.takeWhile p = [] ∧ rest.dropWhile p = rest := by
    cases rest with
    | nil => exact ⟨rfl, rfl⟩
    | cons c rest => simp [hrest c rfl]
  have htake : (taken ++ rest).takeWhile p = taken := by
    rw [List.takeWhile_append_of_pos hp, hstop.1, List.append_nil]
  have hdrop : (taken ++ rest).dropWhile p = rest := by
    rw [List.dropWhile_append_of_pos hp, hstop.2]
  rw [run?, htake, hdrop]
  split
  · contradiction
  · rfl

theorem isBlank_of_isQuote (h : isQuote c = true) : isBlank c = false := by
  simp only [isQuote, Bool.or_eq_true, decide_eq_true_eq] at h
  rcases h with rfl | rfl <;> rfl

/-! ## Calls -/

/-- The word `new` and the blanks after it, or nothing. -/
inductive Front : List Char → Prop where
  | nil : Front []
  | new {gap : List Char} (hgap : Blanks gap) (hne : gap ≠ []) : Front ('n' :: 'e' :: 'w' :: gap)

/-- What a call is made of where a rule takes one: the name, a parenthesis with blanks in front of
    it, and arguments that the rule has a literal for. -/
theorem call?_eq_some (h : w.call? cs = some (literal, rest)) :
    ∃ gap args, Blanks gap ∧ cs = w.constructorName ++ (gap ++ '(' :: args) ∧
      w.arguments? args = some (literal, rest) := by
  simp only [call?, Option.bind_eq_bind, Option.bind_eq_some_iff] at h
  obtain ⟨cs₁, hname, args, hmark, hargs⟩ := h
  obtain ⟨gap, hgap, hcs₁⟩ := dropMark?_eq_some hmark
  exact ⟨gap, args, hgap, by rw [dropText?_eq_some hname, hcs₁], hargs⟩

/-- A match begins at a word, with `new` in front of the call or without. -/
theorem match?_eq_some (h : w.match? before cs = some (literal, rest)) :
    before.any isWord = false ∧ ∃ front gap args, Front front ∧ Blanks gap ∧
      cs = front ++ (w.constructorName ++ (gap ++ '(' :: args)) ∧
      w.arguments? args = some (literal, rest) := by
  simp only [match?] at h
  split at h
  · cases h
  · rename_i hbefore
    refine ⟨by simpa using hbefore, ?_⟩
    rw [Option.orElse_eq_orElse, Option.orElse_eq_or] at h
    rcases Option.or_eq_some_iff.1 h with hnew | ⟨-, hcall⟩
    · obtain ⟨cs₁, hdrop, hcall⟩ := Option.bind_eq_some_iff.1 hnew
      obtain ⟨gap, args, hgap, hcs₁, hargs⟩ := call?_eq_some hcall
      simp only [dropNew?, Option.bind_eq_bind, Option.bind_eq_some_iff] at hdrop
      obtain ⟨cs₂, hnew, ⟨blanks, cs₃⟩, hrun, hcs₃⟩ := hdrop
      obtain ⟨hblanks, hne, hcs₃'⟩ := run?_eq_some hrun
      cases hcs₃
      refine ⟨'n' :: 'e' :: 'w' :: blanks, gap, args, .new ?_ hne, hgap, ?_, hargs⟩
      · exact fun c hc => List.mem_takeWhile_imp (hblanks ▸ hc)
      · rw [dropText?_eq_some hnew, ← hcs₁, hcs₃', hblanks]
        simp
    · obtain ⟨gap, args, hgap, hcs, hargs⟩ := call?_eq_some hcall
      exact ⟨[], gap, args, .nil, hgap, hcs, hargs⟩

/-! ## Where nothing matches -/

theorem constructorName_ne_nil (w : Wrapper) : w.constructorName ≠ [] := by
  cases w <;> simp [constructorName]

theorem isAsciiLetter_of_mem_constructorName (w : Wrapper) :
    ∀ c ∈ w.constructorName, isAsciiLetter c = true := by
  cases w <;> decide

/-- No match begins inside a word. -/
theorem match?_of_isWord (h : before.any isWord = true) : w.match? before cs = none := by
  simp [match?, h]

/-- A match begins with `new` or with the name of the wrapper. -/
theorem match?_of_head (hn : c ≠ 'n') (hname : ∀ w : Wrapper, w.constructorName.head? ≠ some c) :
    w.match? before (c :: cs) = none := by
  cases h : w.match? before (c :: cs) with
  | none => rfl
  | some found =>
    obtain ⟨literal, rest⟩ := found
    obtain ⟨-, front, gap, args, hfront, -, hcs, -⟩ := match?_eq_some h
    cases hfront with
    | nil =>
      obtain ⟨e, name, hw⟩ := List.exists_cons_of_ne_nil (constructorName_ne_nil w)
      rw [hw] at hcs
      have he : c = e := (List.cons.inj hcs).1
      exact absurd (by rw [hw, he]; rfl) (hname w)
    | new => exact absurd (List.cons.inj hcs).1 hn

/-- No match begins at a character that is no letter. -/
theorem match?_of_not_letter (h : isAsciiLetter c = false) : w.match? before (c :: cs) = none := by
  refine match?_of_head (by rintro rfl; cases h) fun w hname => ?_
  have hletter := isAsciiLetter_of_mem_constructorName w c (List.mem_of_mem_head? hname)
  simp [h] at hletter

/-- A text in which something other than letters and blanks comes before the first opening
    parenthesis, or that has none. -/
def Uncalled (cs : List Char) : Prop :=
  ∀ front back, cs = front ++ '(' :: back → ∃ c ∈ front, (isAsciiLetter c || isBlank c) = false

theorem Uncalled.nil : Uncalled [] := by
  intro front back h
  simp at h

theorem Uncalled.cons (h : Uncalled cs) (hc : c ≠ '(') : Uncalled (c :: cs) := by
  rintro (_ | ⟨d, front⟩) back hcs
  · exact absurd (List.cons.inj hcs).1 hc
  · obtain ⟨e, he, hclass⟩ := h front back (List.cons.inj hcs).2
    exact ⟨e, List.mem_cons_of_mem _ he, hclass⟩

/-- A text stays without a call with characters in front of it that are no parenthesis. -/
theorem Uncalled.append (h : Uncalled cs) (hfront : ∀ c ∈ front, c ≠ '(') :
    Uncalled (front ++ cs) := by
  induction front with
  | nil => exact h
  | cons c front ih =>
    exact (ih fun d hd => hfront d (.tail _ hd)).cons (hfront c (.head _))

theorem Uncalled.of_head (hc : (isAsciiLetter c || isBlank c) = false) (hne : c ≠ '(') :
    Uncalled (c :: cs) := by
  rintro (_ | ⟨d, front⟩) back hcs
  · exact absurd (List.cons.inj hcs).1 hne
  · obtain rfl : c = d := (List.cons.inj hcs).1
    exact ⟨c, .head _, hc⟩

/-- The parts of a match before its parenthesis are letters and blanks. -/
theorem letter_or_blank_of_mem (hfront : Front front) (hgap : Blanks gap) :
    ∀ c ∈ front ++ (w.constructorName ++ gap), (isAsciiLetter c || isBlank c) = true := by
  intro c hc
  rcases List.mem_append.1 hc with hc | hc
  · cases hfront with
    | nil => cases hc
    | new hblanks =>
      simp only [List.mem_cons] at hc
      rcases hc with rfl | rfl | rfl | hc
      · rfl
      · rfl
      · rfl
      · simp [hblanks c hc]
  · rcases List.mem_append.1 hc with hc | hc
    · simp [isAsciiLetter_of_mem_constructorName w c hc]
    · simp [hgap c hc]

/-- Nothing matches where no call begins. -/
theorem match?_of_uncalled (h : Uncalled cs) : w.match? before cs = none := by
  cases hmatch : w.match? before cs with
  | none => rfl
  | some found =>
    obtain ⟨literal, rest⟩ := found
    obtain ⟨-, front, gap, args, hfront, hgap, hcs, -⟩ := match?_eq_some hmatch
    have hcs : cs = front ++ (w.constructorName ++ gap) ++ '(' :: args := by simp [hcs]
    obtain ⟨c, hc, hclass⟩ := h _ _ hcs
    simp [letter_or_blank_of_mem hfront hgap c hc] at hclass

/-! ## Matches from inside a literal -/

/-- The characters that close a literal. -/
def isFence (c : Char) : Bool :=
  isQuote c || c = '/'

/-- Whether a text holds a character that closes a literal. -/
def Fenced (cs : List Char) : Prop :=
  ∃ c ∈ cs, isFence c = true

theorem isFence_of_letter_or_blank (h : (isAsciiLetter c || isBlank c) = true) :
    isFence c = false := by
  cases hfence : isFence c with
  | false => rfl
  | true =>
    simp only [isFence, isQuote, Bool.or_eq_true, decide_eq_true_eq] at hfence
    rcases hfence with (rfl | rfl) | rfl <;> simp [isAsciiLetter, isBlank] at h

theorem isAsciiLetter_of_isFence (h : isFence c = true) : isAsciiLetter c = false := by
  simp only [isFence, isQuote, Bool.or_eq_true, decide_eq_true_eq] at h
  rcases h with (rfl | rfl) | rfl <;> rfl

/-- A match that begins where a literal is still to be closed has its name and its parenthesis
    inside the literal. -/
theorem match?_fenced {t : List Char} (ht : Fenced t)
    (h : w.match? before (t ++ cs) = some (literal, rest)) :
    Opens w t ∧ ∃ t', w.arguments? (t' ++ cs) = some (literal, rest) := by
  obtain ⟨-, front, gap, args, hfront, hgap, hcs, hargs⟩ := match?_eq_some h
  have hcs : t ++ cs = (front ++ (w.constructorName ++ gap) ++ ['(']) ++ args := by simp [hcs]
  rcases List.append_eq_append_iff.1 hcs with ⟨as, hopening, -⟩ | ⟨t', rfl, rfl⟩
  · -- the fence would be among letters, blanks and the parenthesis
    obtain ⟨c, hc, hfence⟩ := ht
    have hmem : c ∈ front ++ (w.constructorName ++ gap) ++ ['('] :=
      hopening ▸ List.mem_append_left _ hc
    rcases List.mem_append.1 hmem with hc | hc
    · simp [isFence_of_letter_or_blank (letter_or_blank_of_mem hfront hgap c hc)] at hfence
    · simp [List.mem_singleton.1 hc, isFence, isQuote] at hfence
  · exact ⟨⟨gap, hgap, front, t', by simp⟩, t', hargs⟩

/-! ## Matches at a call -/

/-- A rule takes the calls that have its own name. -/
theorem call?_call (w w' : Wrapper) (hgap : Blanks gap) (args : List Char) :
    w.call? (w'.constructorName ++ (gap ++ '(' :: args)) =
      if w.constructorName = w'.constructorName then w.arguments? args else none := by
  split
  · rename_i hname
    rw [call?, hname, dropText?_append]
    exact congrArg (Option.bind · _) (dropMark?_blanks_append hgap rfl)
  · rename_i hname
    have hdrop : ∀ cs, dropText? w.constructorName (w'.constructorName ++ cs) = none := by
      intro cs
      cases w <;> cases w' <;> first | exact absurd rfl hname | rfl
    rw [call?, hdrop]
    rfl

/-- Where a call stands, the rules with the name that is called match if they take its arguments. -/
theorem match?_call (w w' : Wrapper) (hbefore : before.any isWord = false) (hfront : Front front)
    (hgap : Blanks gap) (args : List Char) :
    w.match? before (front ++ (w'.constructorName ++ (gap ++ '(' :: args))) =
      if w.constructorName = w'.constructorName then w.arguments? args else none := by
  have hcall := call?_call w w' hgap args
  rw [match?, if_neg (by simp [hbefore])]
  cases hfront with
  | nil =>
    have hnew : ∀ cs, dropNew? (w'.constructorName ++ cs) = none := by
      intro cs
      cases w' <;> rfl
    simpa [hnew] using hcall
  | @new blanks hblanks hne =>
    have hnew : dropNew? ('n' :: 'e' :: 'w' :: (blanks ++ (w'.constructorName ++ (gap ++ '(' :: args))))
        = some (w'.constructorName ++ (gap ++ '(' :: args)) := by
      have hname : ∀ c ∈ (w'.constructorName ++ (gap ++ '(' :: args)).head?, isBlank c = false := by
        cases w' <;> simp [constructorName, isBlank]
      have hrun := run?_append hne hblanks hname
      simp [dropNew?, dropText?, hrun]
    have hother : ∀ cs, w.call? ('n' :: cs) = none := by
      intro cs
      cases w <;> rfl
    simpa [hnew, hother] using hcall

end ShellQuery.Wrapper
