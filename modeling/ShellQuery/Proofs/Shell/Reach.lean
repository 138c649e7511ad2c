/-
  ShellQuery.Proofs.Shell.Reach

  How far a match that begins inside a literal can reach. Numbers, commas and blanks are no letters,
  so a rule that reads nothing else stops before the next call. A rule that takes a text reads on to
  a quote, and from there over the beginning of a call to the quote of its payload; it is then done
  only if the payload begins with a closing parenthesis, blanks aside.
-/
import ShellQuery.Proofs.Shell.Matching

namespace ShellQuery.Wrapper

open Text Shell

variable {w : Wrapper} {c mark : Char} {cs rest literal gap taken call : List Char}

/-! ## Reading without letters -/

theorem isAsciiLetter_of_isBlank (h : isBlank c = true) : isAsciiLetter c = false := by
  cases hc : isAsciiLetter c with
  | false => rfl
  | true => simp [isBlank_of_isAsciiLetter hc] at h

theorem isAsciiLetter_of_isQuote (h : isQuote c = true) : isAsciiLetter c = false := by
  simp only [isQuote, Bool.or_eq_true, decide_eq_true_eq] at h
  rcases h with rfl | rfl <;> rfl

theorem isAsciiLetter_of_isWordDigit (h : isWordDigit c = true) : isAsciiLetter c = false := by
  cases hc : isAsciiLetter c with
  | false => rfl
  | true => simp [isWordDigit_of_isAsciiLetter hc] at h

/-- A text that begins with a letter. -/
def Lettered (cs : List Char) : Prop :=
  ∃ c ∈ cs.head?, isAsciiLetter c = true

section
variable (hcall : Lettered call)
include hcall

/-- What has been read without a letter ends before a text that begins with one. -/
theorem suffix_of_no_letter (taken : List Char) (h : call <:+ taken ++ rest)
    (htaken : ∀ c ∈ taken, isAsciiLetter c = false) : call <:+ rest := by
  obtain ⟨t, ht⟩ := h
  rcases List.append_eq_append_iff.1 ht with ⟨as, rfl, has⟩ | ⟨t', -, rfl⟩
  · cases as with
    | nil => exact ⟨[], has⟩
    | cons d as =>
      obtain ⟨c, hc, hletter⟩ := hcall
      obtain rfl : d = c := by simpa [has] using hc
      simp [htaken d (by simp)] at hletter
  · exact ⟨t', rfl⟩

theorem suffix_of_trimStart (h : call <:+ cs) : call <:+ trimStart cs := by
  obtain ⟨gap, hgap, hcs⟩ := eq_blanks_append_trimStart cs
  rw [hcs] at h
  exact suffix_of_no_letter hcall gap h fun c hc => isAsciiLetter_of_isBlank (hgap c hc)

theorem suffix_of_dropMark? (hmark : isAsciiLetter mark = false) (h : call <:+ cs)
    (hdrop : dropMark? mark cs = some rest) : call <:+ rest := by
  obtain ⟨gap, hgap, rfl⟩ := dropMark?_eq_some hdrop
  refine suffix_of_no_letter hcall (gap ++ [mark]) (by simpa using h) fun c hc => ?_
  rcases List.mem_append.1 hc with hc | hc
  · exact isAsciiLetter_of_isBlank (hgap c hc)
  · exact List.mem_singleton.1 hc ▸ hmark

theorem suffix_of_dropQuote (h : call <:+ cs) : call <:+ dropQuote cs := by
  cases cs with
  | nil => exact h
  | cons c cs =>
    simp only [dropQuote]
    split
    · rename_i hc
      refine suffix_of_no_letter hcall [c] h fun d hd => ?_
      exact List.mem_singleton.1 hd ▸ isAsciiLetter_of_isQuote hc
    · exact h

theorem suffix_of_run? (h : call <:+ cs) (hrun : run? isWordDigit cs = some (taken, rest)) :
    call <:+ rest := by
  obtain ⟨htaken, -, hrest⟩ := run?_eq_some hrun
  refine suffix_of_no_letter hcall taken ?_ fun c hc => ?_
  · rwa [htaken, hrest, List.takeWhile_append_dropWhile]
  · exact isAsciiLetter_of_isWordDigit (List.mem_takeWhile_imp (htaken ▸ hc))

theorem suffix_of_integer? (h : call <:+ cs) (hread : integer? cs = some (taken, rest)) :
    call <:+ rest := by
  simp only [integer?] at hread
  split at hread
  · rename_i cs
    obtain ⟨⟨ds, rest'⟩, hrun, hrest⟩ := Option.map_eq_some_iff.1 hread
    cases hrest
    have hcs : call <:+ cs := suffix_of_no_letter hcall ['-'] h (by simp [isAsciiLetter])
    exact suffix_of_run? hcall hcs hrun
  · exact suffix_of_run? hcall h hread

end

/-! ## Reading to a quote -/

/-- A quote or a closing parenthesis, where a payload ends. -/
def isStop (c : Char) : Bool :=
  isQuote c || c = ')'

theorem isStop_of_isBlank (h : isBlank c = true) : isStop c = false := by
  have hne : ∀ d : Char, isBlank d = false → c ≠ d := fun d => ne_of_isBlank h
  simp [isStop, isQuote, hne '"' rfl, hne '\'' rfl, hne ')' rfl]

theorem isStop_of_letter_or_blank (h : (isAsciiLetter c || isBlank c) = true) : isStop c = false := by
  cases hc : isStop c with
  | false => rfl
  | true =>
    simp only [isStop, isQuote, Bool.or_eq_true, decide_eq_true_eq] at hc
    rcases hc with (rfl | rfl) | rfl <;> simp [isAsciiLetter, isBlank] at h

theorem isQuote_of_not_isStop (h : isStop c = false) : isQuote c = false := by
  simp only [isStop, Bool.or_eq_false_iff] at h
  exact h.1

/-- A text in which the first quote, before any closing parenthesis, is followed by something that
    closes no call. -/
def Shut (call : List Char) : Prop :=
  ∃ front quote back, call = front ++ quote :: back ∧ (∀ c ∈ front, isStop c = false) ∧
    isQuote quote = true ∧ dropMark? ')' back = none

/-- A text has one cut at its first character of a class. -/
theorem cut_unique {p : Char → Bool} {as bs as' bs' : List Char} {b b' : Char}
    (h : as ++ b :: bs = as' ++ b' :: bs') (has : ∀ c ∈ as, p c = false) (hb : p b = true)
    (has' : ∀ c ∈ as', p c = false) (hb' : p b' = true) : as = as' ∧ b = b' ∧ bs = bs' := by
  induction as generalizing as' with
  | nil =>
    cases as' with
    | nil =>
      obtain ⟨rfl, rfl⟩ := List.cons.inj h
      exact ⟨rfl, rfl, rfl⟩
    | cons c as' =>
      obtain ⟨rfl, -⟩ := List.cons.inj h
      simp [has' b (.head _)] at hb
  | cons a as ih =>
    cases as' with
    | nil =>
      obtain ⟨rfl, -⟩ := List.cons.inj h
      simp [has a (.head _)] at hb'
    | cons c as' =>
      obtain ⟨rfl, htail⟩ := List.cons.inj h
      obtain ⟨rfl, rfl, rfl⟩ := ih htail (fun d hd => has d (.tail _ hd))
        fun d hd => has' d (.tail _ hd)
      exact ⟨rfl, rfl, rfl⟩

theorem payload?_eq_some (h : payload? cs = some (taken, rest)) :
    ∃ gap q q', Blanks gap ∧ cs = gap ++ q :: (taken ++ q' :: rest) ∧ isQuote q = true ∧
      isQuote q' = true ∧ ∀ c ∈ taken, isQuote c = false := by
  obtain ⟨gap, hgap, hcs⟩ := eq_blanks_append_trimStart cs
  simp only [payload?] at h
  split at h
  · cases h
  rename_i q tail htrim
  split at h
  · rename_i hq
    obtain ⟨⟨taken', after⟩, hrun, hafter⟩ := Option.bind_eq_some_iff.1 h
    obtain ⟨htaken, -, hrest⟩ := run?_eq_some hrun
    cases after with
    | nil => cases hafter
    | cons q' rest' =>
      cases hafter
      have hq' := List.head?_dropWhile_not (fun d => !isQuote d) tail
      rw [← hrest] at hq'
      refine ⟨gap, q, q', hgap, ?_, hq, by simpa using hq', fun c hc => ?_⟩
      · rw [hcs, htrim, htaken, hrest, List.takeWhile_append_dropWhile]
      · simpa using List.mem_takeWhile_imp (p := fun d => !isQuote d) (htaken ▸ hc)
  · cases h

/-- A payload that is read from before a shut text ends before it, or no closing parenthesis
    follows. -/
theorem suffix_of_payload? (hcall : Lettered call) (hshut : Shut call) (h : call <:+ cs)
    (hread : payload? cs = some (taken, rest)) : call <:+ rest ∨ dropMark? ')' rest = none := by
  obtain ⟨gap, q, q', hgap, rfl, hq, hq', htaken⟩ := payload?_eq_some hread
  have hopened : call <:+ taken ++ q' :: rest := by
    refine suffix_of_no_letter hcall (gap ++ [q]) (by simpa using h) fun c hc => ?_
    rcases List.mem_append.1 hc with hc | hc
    · exact isAsciiLetter_of_isBlank (hgap c hc)
    · exact List.mem_singleton.1 hc ▸ isAsciiLetter_of_isQuote hq
  obtain ⟨t, ht⟩ := hopened
  rcases List.append_eq_append_iff.1 ht with ⟨as, rfl, has⟩ | ⟨t', ht', hrest⟩
  · -- the payload goes on into the shut text, so it ends at the first quote there
    obtain ⟨front, quote, back, rfl, hfront, hquote, hback⟩ := hshut
    obtain ⟨-, -, rfl⟩ := cut_unique has (fun c hc => isQuote_of_not_isStop (hfront c hc)) hquote
      (fun c hc => htaken c (List.mem_append_right _ hc)) hq'
    exact .inr hback
  · cases t' with
    | nil =>
      obtain ⟨front, quote, back, rfl, hfront, hquote, hback⟩ := hshut
      have hcut : front ++ quote :: back = [] ++ q' :: rest := hrest.symm
      obtain ⟨-, -, rfl⟩ := cut_unique hcut (fun c hc => isQuote_of_not_isStop (hfront c hc))
        hquote (by simp) hq'
      exact .inr hback
    | cons d t' =>
      obtain ⟨-, rfl⟩ := List.cons.inj hrest
      exact .inl ⟨t', rfl⟩

/-! ## Loose payloads -/

theorem dropQuote_cases (cs : List Char) :
    ∃ q : Option Char, cs = q.toList ++ dropQuote cs ∧ ∀ c ∈ q, isQuote c = true := by
  cases cs with
  | nil => exact ⟨none, rfl, by simp⟩
  | cons c cs =>
    simp only [dropQuote]
    split
    · rename_i hc
      exact ⟨some c, rfl, by simpa using hc⟩
    · exact ⟨none, rfl, by simp⟩

theorem loosePayload?_eq_some (h : loosePayload? cs = some (taken, rest)) :
    ∃ (q : Option Char) (gap : List Char), cs = taken ++ (q.toList ++ (gap ++ ')' :: rest)) ∧
      (∀ c ∈ taken, isStop c = false) ∧ (∀ c ∈ q, isQuote c = true) ∧ Blanks gap := by
  fun_induction loosePayload? cs generalizing taken with
  | case1 => cases h
  | case2 => cases h
  | case3 c cs hc rest' hmark =>
    cases h
    obtain ⟨q, hcs, hq⟩ := dropQuote_cases cs
    obtain ⟨gap, hgap, hdrop⟩ := dropMark?_eq_some hmark
    refine ⟨q, gap, ?_, ?_, hq, hgap⟩
    · rw [hcs, hdrop]
      rfl
    · simpa [isStop] using hc
  | case4 c cs hc hmark ih =>
    obtain ⟨⟨taken', rest'⟩, htail, heq⟩ := Option.map_eq_some_iff.1 h
    cases heq
    obtain ⟨q, gap, rfl, htaken, hq, hgap⟩ := ih htail
    refine ⟨q, gap, rfl, ?_, hq, hgap⟩
    simp only [List.mem_cons, forall_eq_or_imp]
    exact ⟨by simpa [isStop] using hc, htaken⟩

theorem loose?_eq_some (h : loose? cs = some (taken, rest)) :
    ∃ front cs', cs = front ++ cs' ∧ (∀ c ∈ front, isAsciiLetter c = false) ∧
      loosePayload? cs' = some (taken, rest) := by
  fun_induction loose? cs with
  | case1 => cases h
  | case2 c cs hc ih =>
    rw [Option.orElse_eq_orElse, Option.orElse_eq_or] at h
    rcases Option.or_eq_some_iff.1 h with hlater | ⟨-, hhere⟩
    · obtain ⟨front, cs', rfl, hfront, hread⟩ := ih hlater
      refine ⟨c :: front, cs', rfl, ?_, hread⟩
      simp only [List.mem_cons, forall_eq_or_imp]
      exact ⟨isAsciiLetter_of_isBlank hc, hfront⟩
    · exact ⟨[], _, rfl, by simp, hhere⟩
  | case3 c cs hc hq => exact ⟨[c], cs, rfl, by simpa using isAsciiLetter_of_isQuote hq, h⟩
  | case4 c cs hc hq => exact ⟨[], _, rfl, by simp, h⟩

/-- A loose payload that is read from before a shut text ends before it. -/
theorem suffix_of_loose? (hcall : Lettered call) (hshut : Shut call) (h : call <:+ cs)
    (hread : loose? cs = some (taken, rest)) : call <:+ rest := by
  obtain ⟨before, cs', rfl, hbefore, hread⟩ := loose?_eq_some hread
  obtain ⟨q, gap, rfl, htaken, hq, hgap⟩ := loosePayload?_eq_some hread
  obtain ⟨t, ht⟩ := suffix_of_no_letter hcall before h hbefore
  rcases List.append_eq_append_iff.1 ht with ⟨as, rfl, has⟩ | ⟨t', -, hrest⟩
  · -- the payload goes on into the shut text, and its end is not the first quote there
    exfalso
    obtain ⟨front, quote, back, rfl, hfront, hquote, hback⟩ := hshut
    have hquote' : isStop quote = true := by simp [isStop, hquote]
    have hinside : ∀ c ∈ as, isStop c = false := fun c hc =>
      htaken c (List.mem_append_right _ hc)
    cases q with
    | none =>
      have hblank : ∀ c ∈ as ++ gap, isStop c = false := fun c hc =>
        (List.mem_append.1 hc).elim (hinside c) fun hc => isStop_of_isBlank (hgap c hc)
      have hcut : front ++ quote :: back = (as ++ gap) ++ ')' :: rest := by simpa using has
      obtain ⟨-, rfl, -⟩ := cut_unique hcut hfront hquote' hblank rfl
      cases hquote
    | some q =>
      have hq' : isStop q = true := by simp [isStop, hq q rfl]
      obtain ⟨-, -, rfl⟩ := cut_unique has hfront hquote' hinside hq'
      have hmark : dropMark? ')' (gap ++ ')' :: rest) = some rest :=
        dropMark?_blanks_append hgap rfl
      simp [hmark] at hback
  · -- or it ends before the shut text, where only marks and blanks are left
    refine suffix_of_no_letter hcall (q.toList ++ (gap ++ [')'])) ⟨t', ?_⟩ fun c hc => ?_
    · simpa using hrest.symm
    · simp only [List.mem_append, Option.mem_toList, List.mem_singleton] at hc
      rcases hc with hc | hc | rfl
      · exact isAsciiLetter_of_isQuote (hq c hc)
      · exact isAsciiLetter_of_isBlank (hgap c hc)
      · rfl

/-! ## Rules -/

/-- The wrappers whose argument is a text between quotes. -/
def takesText : Wrapper → Bool
  | .objectId | .isoDate | .numberDecimal | .uuid | .binData => true
  | .newObjectId | .isoNow | .numberLong | .numberInt | .timestamp => false

/-- A text that no match of a wrapper reaches into from before it. -/
structure Shielded (w : Wrapper) (call : List Char) : Prop where
  lettered : Lettered call
  shut : w.takesText = true → Shut call

/-- A quoted payload and the closing parenthesis after it are read before a shut text. -/
theorem suffix_of_payload?_dropMark? {after : List Char} (hcall : Lettered call) (hshut : Shut call)
    (h : call <:+ cs) (hread : payload? cs = some (taken, rest))
    (hmark : dropMark? ')' rest = some after) : call <:+ after := by
  rcases suffix_of_payload? hcall hshut h hread with hrest | hnone
  · exact suffix_of_dropMark? hcall rfl hrest hmark
  · simp [hnone] at hmark

/-- What a rule takes for the arguments of a call ends before a text that is shielded from it. -/
theorem suffix_of_arguments? (hcall : Shielded w call) (h : call <:+ cs)
    (hread : w.arguments? cs = some (literal, rest)) : call <:+ rest := by
  obtain ⟨hletter, hshut⟩ := hcall
  -- no piece that a rule reads can run into the shielded text: it starts with a letter
  cases w with
  | objectId | isoDate | uuid =>
    simp only [arguments?, Option.bind_eq_bind, Option.bind_eq_some_iff] at hread
    obtain ⟨⟨payload, cs₁⟩, hpayload, cs₂, hmark, hrest⟩ := hread
    cases hrest
    exact suffix_of_payload?_dropMark? hletter (hshut rfl) h hpayload hmark
  | newObjectId | isoNow =>
    simp only [arguments?, Option.bind_eq_bind, Option.bind_eq_some_iff] at hread
    obtain ⟨cs₁, hmark, hrest⟩ := hread
    cases hrest
    exact suffix_of_dropMark? hletter rfl h hmark
  | numberLong | numberInt =>
    simp only [arguments?, Option.bind_eq_bind, Option.bind_eq_some_iff] at hread
    obtain ⟨⟨digits, cs₁⟩, hinteger, cs₂, hmark, hrest⟩ := hread
    cases hrest
    have h₁ := suffix_of_dropQuote hletter (suffix_of_trimStart hletter h)
    have h₂ := suffix_of_dropQuote hletter (suffix_of_integer? hletter h₁ hinteger)
    exact suffix_of_dropMark? hletter rfl h₂ hmark
  | numberDecimal => exact suffix_of_loose? hletter (hshut rfl) h hread
  | binData =>
    simp only [arguments?, Option.bind_eq_bind, Option.bind_eq_some_iff] at hread
    obtain ⟨⟨kind, cs₁⟩, hkind, cs₂, hcomma, ⟨payload, cs₃⟩, hpayload, cs₄, hmark, hrest⟩ := hread
    cases hrest
    have h₁ := suffix_of_run? hletter (suffix_of_trimStart hletter h) hkind
    have h₂ := suffix_of_dropMark? hletter rfl h₁ hcomma
    exact suffix_of_payload?_dropMark? hletter (hshut rfl) h₂ hpayload hmark
  | timestamp =>
    simp only [arguments?, Option.bind_eq_bind, Option.bind_eq_some_iff] at hread
    obtain ⟨⟨seconds, cs₁⟩, hseconds, cs₂, hcomma, ⟨increment, cs₃⟩, hincrement, cs₄, hmark,
      hrest⟩ := hread
    cases hrest
    have h₁ := suffix_of_run? hletter (suffix_of_trimStart hletter h) hseconds
    have h₂ := suffix_of_dropMark? hletter rfl h₁ hcomma
    have h₃ := suffix_of_run? hletter (suffix_of_trimStart hletter h₂) hincrement
    exact suffix_of_dropMark? hletter rfl h₃ hmark

/-! ## Matches from inside a literal -/

/-- Whether no match that begins inside a literal before a text reaches further than `d` characters
    into the text. -/
def Guard (w : Wrapper) (rest : List Char) (d : Nat) : Prop :=
  ∀ t before literal rest', Fenced t → w.match? before (t ++ rest) = some (literal, rest') →
    rest.length ≤ rest'.length + d

theorem Shielded.guard (h : Shielded w call) : Guard w call 0 := by
  intro t before literal rest' ht hmatch
  obtain ⟨-, t', hargs⟩ := match?_fenced ht hmatch
  exact (suffix_of_arguments? h ⟨t', rfl⟩ hargs).length_le

/-- Whatever stands before a text, a match reaches no further into it than it does into the two. -/
theorem Guard.append {d : Nat} (h : Guard w rest d) (front : List Char) :
    Guard w (front ++ rest) (d + front.length) := by
  intro t before literal rest' ht hmatch
  have hfenced : Fenced (t ++ front) := by
    obtain ⟨c, hc, hfence⟩ := ht
    exact ⟨c, List.mem_append_left _ hc, hfence⟩
  have hle := h (t ++ front) before literal rest' hfenced (by simpa using hmatch)
  simp only [List.length_append]
  omega

end ShellQuery.Wrapper
