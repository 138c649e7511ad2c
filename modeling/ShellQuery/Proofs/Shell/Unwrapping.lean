/-
  ShellQuery.Proofs.Shell.Unwrapping

  One rule of the normalizer on a text. `Unwraps` follows the replacement from character to
  character: it copies a character, or a match that begins inside a literal, or replaces a call.
  A match that is copied must not reach into a call that is to be replaced: the number that the
  judgement carries is how far away the next such call is.

  `Settled` says this of a text without the number, so that texts are settled from their end to
  their beginning, piece by piece: blanks, punctuation, names, literals and calls.
-/
import ShellQuery.Proofs.Extent.Passage
import ShellQuery.Proofs.Shell.Reach

namespace ShellQuery.Wrapper

open Text Shell

variable {w : Wrapper} {z : Zone} {before : Option Char} {c : Char}
  {cs cs' rest rest' t front gap literal : List Char} {d : Nat}

/-! ## The replacement, step by step -/

/-- What one rule makes of a text. The number is how many characters there are at least before the
    next call that is replaced. -/
inductive Unwraps (w : Wrapper) : Zone → Option Char → List Char → List Char → Nat → Prop where
  | nil {z : Zone} {before : Option Char} {d : Nat} : Unwraps w z before [] [] d
  | copy {z : Zone} {before : Option Char} {c : Char} {cs cs' : List Char} {d : Nat}
    (hmatch : w.match? before (c :: cs) = none)
    (hrest : Unwraps w (z.next c) (some c) cs cs' d) : Unwraps w z before (c :: cs) (c :: cs') (d + 1)
  | keep {z : Zone} {before : Option Char} {c : Char} {cs cs' literal rest : List Char} {d : Nat}
    (hz : z.isCode = false) (hmatch : w.match? before (c :: cs) = some (literal, rest))
    (hreach : cs.length ≤ rest.length + d)
    (hrest : Unwraps w (z.next c) (some c) cs cs' d) : Unwraps w z before (c :: cs) (c :: cs') (d + 1)
  | call {z : Zone} {before : Option Char} {c : Char} {t literal rest rest' : List Char} {d : Nat}
    (hz : z.isCode = true) (hmatch : w.match? before (c :: (t ++ rest)) = some (literal, rest))
    (hrest : Unwraps w (z.run (c :: t)) (c :: t).getLast? rest rest' d) :
    Unwraps w z before (c :: (t ++ rest)) (literal ++ rest') 0

/-- What belongs to a call that was replaced is dropped. -/
theorem unwrapFrom_dropping (w : Wrapper) (z : Zone) (c : Char) (t rest : List Char) :
    w.unwrapFrom (z.next c) (some c) t.length 0 (t ++ rest) =
      w.unwrapFrom (z.run (c :: t)) (c :: t).getLast? 0 0 rest := by
  induction t generalizing z c with
  | nil => rfl
  | cons e t ih => exact ih (z.next c) e

/-- The judgement is right about the replacement, also where a match is being copied that ends
    before the next call. -/
theorem Unwraps.unwrapFrom_eq (h : Unwraps w z before cs cs' d) :
    ∀ copying ≤ d, w.unwrapFrom z before 0 copying cs = cs' := by
  induction h with
  | nil => exact fun copying _ => by simp [unwrapFrom]
  | copy hmatch hrest ih =>
    rintro (_ | copying) hle
    · rw [unwrapFrom, hmatch]
      exact congrArg _ (ih 0 (Nat.zero_le _))
    · rw [unwrapFrom]
      exact congrArg _ (ih copying (Nat.le_of_succ_le_succ hle))
  | keep hz hmatch hreach hrest ih =>
    rintro (_ | copying) hle
    · simp only [unwrapFrom, hmatch, hz, Bool.false_eq_true, if_false]
      exact congrArg _ (ih _ (by omega))
    · rw [unwrapFrom]
      exact congrArg _ (ih copying (Nat.le_of_succ_le_succ hle))
  | @call z before c t literal rest rest' d hz hmatch hrest ih =>
    intro copying hle
    obtain rfl : copying = 0 := Nat.le_zero.1 hle
    have hlength : (t ++ rest).length - rest.length = t.length := by simp
    simp only [unwrapFrom, hmatch, hz, if_true, hlength, unwrapFrom_dropping]
    exact congrArg _ (ih 0 (Nat.zero_le _))

/-- A match that begins inside a literal is copied, if it is kept from the next call or if the
    literal opens no call. -/
theorem Unwraps.inside {q : Char} (h : Inside q z cs) (hq : isFence q = true)
    (hguard : Guard w rest d ∨ ¬ Opens w cs) (hrest : Unwraps w (.code (some q)) (some q) rest rest' d) :
    Unwraps w z before (cs ++ rest) (cs ++ rest') (d + cs.length) := by
  induction h generalizing before with
  | close hz hclose =>
    exact .copy (match?_of_not_letter (isAsciiLetter_of_isFence hq)) (hclose ▸ hrest)
  | @cons z c cs hz hinside ih =>
    have htail : Unwraps w (z.next c) (some c) (cs ++ rest) (cs ++ rest') (d + cs.length) :=
      ih (hguard.imp_right fun hopens hcs => hopens (hcs.mono (List.suffix_cons c cs).isInfix))
    cases hmatch : w.match? before (c :: (cs ++ rest)) with
    | none => exact .copy hmatch htail
    | some found =>
      obtain ⟨literal, after⟩ := found
      have hfenced : Fenced (c :: cs) := ⟨q, .tail _ hinside.mem, hq⟩
      rcases hguard with hguard | hopens
      · have hle := hguard (c :: cs) before literal after hfenced hmatch
        have hreach : (cs ++ rest).length ≤ after.length + (d + cs.length) := by
          rw [List.length_append]
          omega
        exact .keep hz hmatch hreach htail
      · exact absurd (match?_fenced hfenced hmatch).1 hopens

/-! ## Settled texts -/

/-- What one rule makes of a text, in which, if `m` holds, no call is reached by a match that begins
    before it. -/
def Settled (w : Wrapper) (m : Prop) (z : Zone) (before : Option Char) (cs cs' : List Char) : Prop :=
  ∃ d, Unwraps w z before cs cs' d ∧ (m → Guard w cs d)

namespace Settled

variable {m : Prop} {last : Option Char}

theorem unwrap_eq (h : Settled w m .start none cs cs') : w.unwrap cs = cs' := by
  obtain ⟨d, h, -⟩ := h
  exact h.unwrapFrom_eq 0 (Nat.zero_le _)

theorem nil : Settled w m z before [] [] :=
  ⟨0, .nil, fun _ _ _ _ _ _ _ => Nat.zero_le _⟩

theorem copy (hmatch : w.match? before (c :: cs) = none)
    (h : Settled w m (z.next c) (some c) cs cs') : Settled w m z before (c :: cs) (c :: cs') := by
  obtain ⟨d, h, hguard⟩ := h
  exact ⟨d + 1, .copy hmatch h, fun hm => (hguard hm).append [c]⟩

/-- A call is replaced, if no match from before it can reach into it. -/
theorem call (hz : z.isCode = true)
    (hmatch : w.match? before (c :: (t ++ rest)) = some (literal, rest))
    (hguard : m → Guard w (c :: (t ++ rest)) 0)
    (h : Settled w m (z.run (c :: t)) (c :: t).getLast? rest rest') :
    Settled w m z before (c :: (t ++ rest)) (literal ++ rest') := by
  obtain ⟨d, h, -⟩ := h
  exact ⟨0, .call hz hmatch h, hguard⟩

/-- A literal is copied. -/
theorem inside {q : Char} (hinside : Inside q z cs) (hq : isFence q = true)
    (hm : m ∨ ¬ Opens w cs) (h : Settled w m (.code (some q)) (some q) rest rest') :
    Settled w m z before (cs ++ rest) (cs ++ rest') := by
  obtain ⟨d, h, hguard⟩ := h
  exact ⟨d + cs.length, .inside hinside hq (hm.imp hguard id) h, fun hm => (hguard hm).append cs⟩

/-! ## Code -/

/-- A character that is no letter is copied in code, if it opens no literal. -/
theorem mark (hletter : isAsciiLetter c = false) (hopens : Zone.opensLiteral last c = false)
    (h : Settled w m (.code (Zone.lastAfter last c)) (some c) rest rest') :
    Settled w m (.code last) before (c :: rest) (c :: rest') := by
  refine copy (match?_of_not_letter hletter) ?_
  rwa [Zone.next_code_of_not_opens hopens]

/-- Blanks are copied. No word character is before what follows them. -/
theorem blanks (hgap : Blanks gap) (hbefore : gap = [] → before.any isWord = false)
    (h : ∀ b : Option Char, b.any isWord = false →
      Settled w m ((Zone.code last).run gap) b rest rest') :
    Settled w m (.code last) before (gap ++ rest) (gap ++ rest') := by
  induction gap generalizing last before with
  | nil => exact h before (hbefore rfl)
  | cons c gap ih =>
    have hc := hgap c (.head _)
    have hinert := isInert_of_isBlank hc
    refine mark (isAsciiLetter_of_isBlank hc) (opensLiteral_of_isInert hinert) ?_
    refine ih (fun d hd => hgap d (.tail _ hd)) (fun _ => by simpa using isWord_of_isBlank hc) ?_
    rw [← Zone.next_code_of_isInert hinert]
    exact h

end Settled

/-- What may follow a value: it is settled in code whatever is before it, and no parenthesis comes
    next. -/
structure Ready (w : Wrapper) (m : Prop) (rest rest' : List Char) : Prop where
  settled : ∀ last before, Settled w m (.code last) before rest rest'
  uncalled : Uncalled rest

namespace Ready

variable {m : Prop} {last : Option Char}

theorem nil : Ready w m [] [] :=
  ⟨fun _ _ => .nil, .nil⟩

/-- The marks of objects, arrays and lists, and the parenthesis that closes a call. -/
def punctuation : List Char :=
  [',', ':', '[', ']', '{', '}', ')']

theorem mark (hc : c ∈ punctuation) (h : Settled w m (.code (some c)) (some c) rest rest') :
    Ready w m (c :: rest) (c :: rest') := by
  obtain ⟨hletter, hblank, hne⟩ : isAsciiLetter c = false ∧ isBlank c = false ∧ c ≠ '(' :=
    (by decide : ∀ d ∈ punctuation, isAsciiLetter d = false ∧ isBlank d = false ∧ d ≠ '(') c hc
  have hopens : ∀ last, Zone.opensLiteral last c = false := by
    intro last
    simp only [punctuation, List.mem_cons, List.not_mem_nil, or_false] at hc
    rcases hc with rfl | rfl | rfl | rfl | rfl | rfl | rfl <;> rfl
  have hnarrow : ¬ isAsciiBlank c = true := fun hc => by
    simp [isBlank_of_isAsciiBlank hc] at hblank
  refine ⟨fun last before => .mark hletter (hopens last) ?_, .of_head (by simp [hletter, hblank]) hne⟩
  rwa [Zone.lastAfter, if_neg hnarrow]

/-- A stretch of inert characters. -/
theorem inert (hfront : ∀ c ∈ front, isInert c = true) (h : Ready w m rest rest') :
    Ready w m (front ++ rest) (front ++ rest') := by
  induction front with
  | nil => exact h
  | cons c front ih =>
    have htail := ih fun d hd => hfront d (.tail _ hd)
    have hc := hfront c (.head _)
    have hne : c ≠ '(' := by
      rintro rfl
      cases hc
    have huncalled : Uncalled (c :: (front ++ rest)) := htail.uncalled.cons hne
    refine ⟨fun last before => .copy (match?_of_uncalled huncalled) ?_, huncalled⟩
    rw [Zone.next_code_of_isInert hc]
    exact htail.settled _ _

theorem blanks (hgap : Blanks gap) (h : Ready w m rest rest') :
    Ready w m (gap ++ rest) (gap ++ rest') :=
  h.inert fun c hc => isInert_of_isBlank (hgap c hc)

end Ready

end ShellQuery.Wrapper
