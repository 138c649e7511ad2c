/-
  ShellQuery.Bracket

  The extent of a call. After an opening parenthesis, the delimiter that brings the nesting back
  to where it was closes the call; delimiters of the three kinds count alike, and those inside
  literals do not count.
-/
import ShellQuery.Literal

namespace ShellQuery

/-- The number of bytes that a text takes in UTF-8. -/
def byteLength (cs : List Char) : Nat :=
  cs.foldr (fun c n => c.utf8Size + n) 0

theorem byteLength_append (as bs : List Char) :
    byteLength (as ++ bs) = byteLength as + byteLength bs := by
  induction as with
  | nil => exact (Nat.zero_add _).symm
  | cons a as ih =>
    simp only [byteLength, List.cons_append, List.foldr_cons] at ih ⊢
    rw [ih, Nat.add_assoc]

def isOpener (c : Char) : Bool :=
  c = '(' || c = '[' || c = '{'

def isCloser (c : Char) : Bool :=
  c = ')' || c = ']' || c = '}'

/-- A text cut at the delimiter that closes a call. -/
structure Closed where
  inside : List Char
  closer : Char
  after : List Char
deriving DecidableEq, Repr

/-- The same cut, with one more character in front. -/
def Closed.push (c : Char) (s : Closed) : Closed :=
  { s with inside := c :: s.inside }

/-- Cuts a text at the closer that is not matched in it, `depth` openers being matched later
    than it. -/
def closeFrom? (z : Zone) (depth : Nat) : List Char → Option Closed
  | [] => none
  | c :: cs =>
    if z.isCode && isOpener c then (closeFrom? (z.next c) (depth + 1) cs).map (.push c)
    else if z.isCode && isCloser c then
      match depth with
      | 0 => some ⟨[], c, cs⟩
      | depth + 1 => (closeFrom? (z.next c) depth cs).map (.push c)
    else (closeFrom? (z.next c) depth cs).map (.push c)

/-- Cuts the text after an opening parenthesis at the delimiter that closes it. -/
def close? (cs : List Char) : Option Closed :=
  closeFrom? (.code (some '(')) 0 cs

/-! ## What a cut consists of -/

/-- Nothing is lost in a cut. -/
theorem eq_of_closeFrom? {z : Zone} {depth : Nat} {cs : List Char} {cut : Closed}
    (h : closeFrom? z depth cs = some cut) : cs = cut.inside ++ cut.closer :: cut.after := by
  induction cs generalizing z depth cut with
  | nil => simp [closeFrom?] at h
  | cons c cs ih =>
    have pushed : ∀ {y : Zone} {n : Nat}, (closeFrom? y n cs).map (.push c) = some cut →
        c :: cs = cut.inside ++ cut.closer :: cut.after := by
      intro y n h
      obtain ⟨rest, hrest, rfl⟩ := Option.map_eq_some_iff.1 h
      simpa [Closed.push] using ih hrest
    unfold closeFrom? at h
    split at h
    · exact pushed h
    · split at h
      · split at h
        · cases h
          rfl
        · exact pushed h
      · exact pushed h

/-- A cut is made at a closing delimiter. -/
theorem isCloser_of_closeFrom? {z : Zone} {depth : Nat} {cs : List Char} {cut : Closed}
    (h : closeFrom? z depth cs = some cut) : isCloser cut.closer = true := by
  induction cs generalizing z depth cut with
  | nil => simp [closeFrom?] at h
  | cons c cs ih =>
    have pushed : ∀ {y : Zone} {n : Nat}, (closeFrom? y n cs).map (.push c) = some cut →
        isCloser cut.closer = true := by
      intro y n h
      obtain ⟨rest, hrest, rfl⟩ := Option.map_eq_some_iff.1 h
      have closes := ih hrest
      exact closes
    unfold closeFrom? at h
    split at h
    · exact pushed h
    · split at h
      · rename_i hc
        split at h
        · cases h
          simp_all
        · exact pushed h
      · exact pushed h

end ShellQuery
