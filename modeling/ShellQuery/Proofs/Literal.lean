/-
  ShellQuery.Proofs.Literal

  Where a string or a regular expression ends. What the reader takes after the opening delimiter
  lies inside the literal up to the delimiter that closes it, and no earlier character closes it.
-/
import ShellQuery.Literal
import ShellQuery.Proofs.Reader

namespace ShellQuery

open Text Argument

/-- A text from inside a literal up to and with the delimiter that closes it. -/
inductive Inside (delimiter : Char) : Zone → List Char → Prop where
  | close {z : Zone} (hz : z.isCode = false) (hclose : z.next delimiter = .code (some delimiter)) :
    Inside delimiter z [delimiter]
  | cons {z : Zone} {c : Char} {cs : List Char} (hz : z.isCode = false)
    (hrest : Inside delimiter (z.next c) cs) : Inside delimiter z (c :: cs)

theorem Inside.isCode {d : Char} {z : Zone} {cs : List Char} (h : Inside d z cs) :
    z.isCode = false := by
  cases h with
  | close hz => exact hz
  | cons hz => exact hz

theorem Inside.mem {d : Char} {z : Zone} {cs : List Char} (h : Inside d z cs) : d ∈ cs := by
  induction h with
  | close => exact .head _
  | cons hz hrest ih => exact .tail _ ih

/-- Characters that leave a literal as it is lie inside it. -/
theorem Inside.of_steady {d : Char} {z : Zone} {front cs : List Char} (h : Inside d z cs)
    (hfront : ∀ c ∈ front, z.next c = z) : Inside d z (front ++ cs) := by
  induction front with
  | nil => exact h
  | cons c front ih =>
    refine .cons h.isCode ?_
    rw [hfront c (.head _)]
    exact ih fun e he => hfront e (.tail _ he)

/-! ## Steps inside a literal -/

namespace Zone

variable {q c : Char} {inClass : Bool}

theorem next_string (hq : Wrapper.isQuote q = true) (hc : c ≠ q) (hb : c ≠ '\\') :
    (literal q false).next c = literal q false := by
  simp only [Wrapper.isQuote, Bool.or_eq_true, decide_eq_true_eq] at hq
  rcases hq with rfl | rfl <;> simp [next, hc, hb]

theorem next_string_end (hq : Wrapper.isQuote q = true) :
    (literal q false).next q = code (some q) := by
  simp only [Wrapper.isQuote, Bool.or_eq_true, decide_eq_true_eq] at hq
  rcases hq with rfl | rfl <;> rfl

@[simp] theorem next_backslash : (literal q inClass).next '\\' = escaped q inClass := rfl

@[simp] theorem next_escaped : (escaped q inClass).next c = literal q inClass := rfl

theorem next_code_quote {last : Option Char} (hq : Wrapper.isQuote q = true) :
    (code last).next q = literal q false := by
  simp only [Wrapper.isQuote, Bool.or_eq_true, decide_eq_true_eq] at hq
  rcases hq with rfl | rfl <;> rfl

theorem next_code_slash {last : Option Char} (h : valueMayStart last = true) :
    (code last).next '/' = literal '/' false := by
  simp [next, opensLiteral, h]

end Zone

/-! ## Strings -/

/-- A hexadecimal digit ends no string and begins no escape. -/
theorem next_hexDigit {q c : Char} {n : Nat} (hq : Wrapper.isQuote q = true)
    (h : hexDigit? c = some n) : (Zone.literal q false).next c = .literal q false := by
  have hne : ∀ d : Char, hexDigit? d = none → c ≠ d := by
    rintro d hd rfl
    simp [h] at hd
  refine Zone.next_string hq ?_ (hne _ (by decide))
  simp only [Wrapper.isQuote, Bool.or_eq_true, decide_eq_true_eq] at hq
  rcases hq with rfl | rfl <;> exact hne _ (by decide)

theorem hexQuad_eq_some {a b c d : Char} {n : Nat} (h : hexQuad? a b c d = some n) :
    ∀ x ∈ [a, b, c, d], ∃ m, hexDigit? x = some m := by
  simp only [hexQuad?, Option.bind_eq_bind, Option.bind_eq_some_iff] at h
  obtain ⟨w, hw, x, hx, y, hy, z, hz, -⟩ := h
  simp [hw, hx, hy, hz]

/-- What is read of a string lies inside it. -/
theorem inside_of_stringBody {opening cs text rest : List Char} {q : Char}
    (hq : Wrapper.isQuote q = true) (h : stringBody opening q cs = .ok (text, rest)) :
    ∃ taken, cs = taken ++ rest ∧ Inside q (.literal q false) taken := by
  fun_induction stringBody opening q cs generalizing text with
  | case2 cs =>
    cases h
    exact ⟨[q], rfl, .close rfl (Zone.next_string_end hq)⟩
  | case5 h₁ h₂ h₃ h₄ after n hquad hscalar hne ih =>
    obtain ⟨tail, htail, -⟩ := push_eq_ok h
    obtain ⟨taken, rfl, hinside⟩ := ih htail
    refine ⟨'\\' :: 'u' :: ([h₁, h₂, h₃, h₄] ++ taken), rfl, .cons rfl (.cons rfl ?_)⟩
    refine hinside.of_steady fun x hx => ?_
    obtain ⟨m, hm⟩ := hexQuad_eq_some hquad x hx
    exact next_hexDigit hq hm
  | case8 e cs hu hne ih =>
    obtain ⟨tail, htail, -⟩ := push_eq_ok h
    obtain ⟨taken, rfl, hinside⟩ := ih htail
    exact ⟨'\\' :: e :: taken, rfl, .cons rfl (.cons rfl hinside)⟩
  | case9 c cs hne hb ih =>
    obtain ⟨tail, htail, -⟩ := push_eq_ok h
    obtain ⟨taken, rfl, hinside⟩ := ih htail
    exact ⟨c :: taken, rfl, .cons rfl (by rwa [Zone.next_string hq hne hb])⟩
  | _ => cases h

/-- A string that is read is its opening quote and a text inside it. -/
theorem inside_of_string {cs rest : List Char} {text : String} {q : Char}
    (hq : Wrapper.isQuote q = true) (h : string (q :: cs) = .ok (text, rest)) :
    ∃ taken, cs = taken ++ rest ∧ Inside q (.literal q false) taken := by
  obtain ⟨⟨body, rest'⟩, hbody, hok⟩ := bind_eq_ok.1 h
  cases hok
  exact inside_of_stringBody hq hbody

/-! ## Regular expressions -/

/-- What is read of a regular expression before its flags lies inside it. -/
theorem inside_of_regexBody {opening cs text rest : List Char} {inClass : Bool}
    (h : regexBody opening inClass cs = .ok (text, rest)) :
    ∃ taken, cs = taken ++ rest ∧ Inside '/' (.literal '/' inClass) taken := by
  fun_induction regexBody opening inClass cs generalizing text with
  -- after a backslash the zone takes any character
  | case3 inClass e cs ih =>
    obtain ⟨tail, htail, -⟩ := push_eq_ok h
    obtain ⟨tail', htail', -⟩ := push_eq_ok htail
    obtain ⟨taken, rfl, hinside⟩ := ih htail'
    exact ⟨'\\' :: e :: taken, rfl, .cons rfl (.cons rfl hinside)⟩
  -- both know of the class, and change at the same brackets
  | case4 inClass cs hb ih =>
    obtain ⟨tail, htail, -⟩ := push_eq_ok h
    obtain ⟨taken, rfl, hinside⟩ := ih htail
    exact ⟨'[' :: taken, rfl, .cons rfl hinside⟩
  | case5 inClass cs hb ho ih =>
    obtain ⟨tail, htail, -⟩ := push_eq_ok h
    obtain ⟨taken, rfl, hinside⟩ := ih htail
    exact ⟨']' :: taken, rfl, .cons rfl hinside⟩
  | case6 inClass c cs hb ho hc hend =>
    cases h
    simp only [Bool.and_eq_true, decide_eq_true_eq, Bool.not_eq_true'] at hend
    obtain ⟨rfl, rfl⟩ := hend
    exact ⟨['/'], rfl, .close rfl rfl⟩
  | case7 inClass c cs hb ho hc hend ih =>
    obtain ⟨tail, htail, -⟩ := push_eq_ok h
    obtain ⟨taken, rfl, hinside⟩ := ih htail
    refine ⟨c :: taken, rfl, .cons rfl ?_⟩
    have hnext : (Zone.literal '/' inClass).next c = .literal '/' inClass := by
      simp_all [Zone.next]
    rwa [hnext]
  | _ => cases h

/-- A regular expression that is read is its opening slash, a text inside it and flags. -/
theorem inside_of_regex {cs rest : List Char} {v : Value} (h : regex ('/' :: cs) = .ok (v, rest)) :
    ∃ taken written, cs = taken ++ (written ++ rest) ∧ Inside '/' (.literal '/' false) taken ∧
      ∀ c ∈ written, isAsciiLetter c = true := by
  obtain ⟨⟨pattern, rest'⟩, hbody, hflags⟩ := bind_eq_ok.1 h
  obtain ⟨⟨written, rest''⟩, hflags, hok⟩ := bind_eq_ok.1 hflags
  cases hok
  obtain ⟨taken, rfl, hinside⟩ := inside_of_regexBody hbody
  obtain ⟨rfl, hall⟩ := isAsciiLetter_of_flags hflags
  exact ⟨taken, written, rfl, hinside, fun c hc => (hall c hc).1⟩

end ShellQuery
