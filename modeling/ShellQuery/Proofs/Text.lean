/-
  ShellQuery.Proofs.Text

  How the classes of characters lie to one another. The classes of names are tables, so what they
  have in common with blanks or with ASCII letters is read off the characters one by one.
-/
import ShellQuery.Text.Blank
import ShellQuery.Text.Word

namespace ShellQuery.Text

/-! ## Blanks -/

/-- The code points of the blanks. -/
def blankCodes : List Nat :=
  [0x9, 0xA, 0xB, 0xC, 0xD, 0x20, 0x85, 0xA0, 0x1680, 0x2000, 0x2001, 0x2002, 0x2003, 0x2004,
    0x2005, 0x2006, 0x2007, 0x2008, 0x2009, 0x200A, 0x2028, 0x2029, 0x202F, 0x205F, 0x3000]

theorem mem_blankCodes {c : Char} (h : isBlank c = true) : c.toNat ∈ blankCodes := by
  simp only [isBlank, Bool.or_eq_true, Bool.and_eq_true, decide_eq_true_eq] at h
  simp only [blankCodes, List.mem_cons, List.not_mem_nil, or_false]
  omega

/-- What can be checked for every blank holds of each. -/
theorem of_isBlank {p : Char → Bool} (hp : blankCodes.all (fun n => p (Char.ofNat n)) = true)
    {c : Char} (h : isBlank c = true) : p c = true := by
  have hc := List.all_eq_true.1 hp _ (mem_blankCodes h)
  rwa [Char.ofNat_toNat] at hc

/-- No blank is in a class that names and numbers are made of. -/
theorem classes_of_isBlank {c : Char} (h : isBlank c = true) :
    isWord c = false ∧ isIdentChar c = false ∧ isKeyChar c = false ∧ isIdentStart c = false ∧
      isAsciiDigit c = false ∧ isWordDigit c = false := by
  have hclasses := of_isBlank (p := fun c => !isWord c && !isIdentChar c && !isKeyChar c &&
    !isIdentStart c && !isAsciiDigit c && !isWordDigit c) (by decide +kernel) h
  simpa [and_assoc] using hclasses

theorem isWord_of_isBlank {c : Char} (h : isBlank c = true) : isWord c = false :=
  (classes_of_isBlank h).1

theorem isIdentChar_of_isBlank {c : Char} (h : isBlank c = true) : isIdentChar c = false :=
  (classes_of_isBlank h).2.1

theorem isKeyChar_of_isBlank {c : Char} (h : isBlank c = true) : isKeyChar c = false :=
  (classes_of_isBlank h).2.2.1

theorem isIdentStart_of_isBlank {c : Char} (h : isBlank c = true) : isIdentStart c = false :=
  (classes_of_isBlank h).2.2.2.1

theorem isAsciiDigit_of_isBlank {c : Char} (h : isBlank c = true) : isAsciiDigit c = false :=
  (classes_of_isBlank h).2.2.2.2.1

theorem isBlank_of_isAsciiDigit {c : Char} (h : isAsciiDigit c = true) : isBlank c = false := by
  cases hc : isBlank c with
  | false => rfl
  | true => simp [isAsciiDigit_of_isBlank hc] at h

theorem isWordDigit_of_isBlank {c : Char} (h : isBlank c = true) : isWordDigit c = false :=
  (classes_of_isBlank h).2.2.2.2.2

/-! ## ASCII -/

/-- What can be checked for every ASCII character holds of each. -/
theorem of_ascii {p : Char → Bool} (hp : ∀ n : Fin 128, p (Char.ofNat n) = true) {c : Char}
    (h : c ≤ '\x7f') : p c = true := by
  have hlt : c.toNat < 128 := Nat.lt_succ_of_le h
  have hc := hp ⟨c.toNat, hlt⟩
  rwa [Char.ofNat_toNat] at hc

theorem le_of_isAsciiLetter {c : Char} (h : isAsciiLetter c = true) : c ≤ '\x7f' := by
  simp only [isAsciiLetter, Bool.or_eq_true, Bool.and_eq_true, decide_eq_true_eq] at h
  rcases h with ⟨-, h⟩ | ⟨-, h⟩
  · exact Char.le_trans h (by decide)
  · exact Char.le_trans h (by decide)

theorem le_of_isAsciiDigit {c : Char} (h : isAsciiDigit c = true) : c ≤ '\x7f' := by
  simp only [isAsciiDigit, Bool.and_eq_true, decide_eq_true_eq] at h
  exact Char.le_trans h.2 (by decide)

/-- An ASCII letter may stand anywhere in a name, and in no number. -/
theorem classes_of_isAsciiLetter {c : Char} (h : isAsciiLetter c = true) :
    isWord c = true ∧ isIdentChar c = true ∧ isIdentStart c = true ∧ isBlank c = false ∧
      isWordDigit c = false := by
  have hclasses := of_ascii (p := fun c => !isAsciiLetter c || (isWord c && isIdentChar c &&
    isIdentStart c && !isBlank c && !isWordDigit c)) (by decide +kernel) (le_of_isAsciiLetter h)
  simpa [h, and_assoc] using hclasses

theorem isWord_of_isAsciiLetter {c : Char} (h : isAsciiLetter c = true) : isWord c = true :=
  (classes_of_isAsciiLetter h).1

theorem isIdentChar_of_isAsciiLetter {c : Char} (h : isAsciiLetter c = true) :
    isIdentChar c = true :=
  (classes_of_isAsciiLetter h).2.1

theorem isIdentStart_of_isAsciiLetter {c : Char} (h : isAsciiLetter c = true) :
    isIdentStart c = true :=
  (classes_of_isAsciiLetter h).2.2.1

theorem isBlank_of_isAsciiLetter {c : Char} (h : isAsciiLetter c = true) : isBlank c = false :=
  (classes_of_isAsciiLetter h).2.2.2.1

theorem isWordDigit_of_isAsciiLetter {c : Char} (h : isAsciiLetter c = true) :
    isWordDigit c = false :=
  (classes_of_isAsciiLetter h).2.2.2.2

/-- An ASCII digit is a digit of a name, and no letter. -/
theorem classes_of_isAsciiDigit {c : Char} (h : isAsciiDigit c = true) :
    isAsciiLetter c = false ∧ isWordDigit c = true := by
  have hclasses := of_ascii (p := fun c => !isAsciiDigit c || (!isAsciiLetter c && isWordDigit c))
    (by decide +kernel) (le_of_isAsciiDigit h)
  simpa [h] using hclasses

theorem isAsciiLetter_of_isAsciiDigit {c : Char} (h : isAsciiDigit c = true) :
    isAsciiLetter c = false :=
  (classes_of_isAsciiDigit h).1

theorem isWordDigit_of_isAsciiDigit {c : Char} (h : isAsciiDigit c = true) :
    isWordDigit c = true :=
  (classes_of_isAsciiDigit h).2

/-- A blank is none of the given characters, if none of them is a blank. -/
theorem ne_of_isBlank {c d : Char} (h : isBlank c = true) (hd : isBlank d = false) : c ≠ d := by
  rintro rfl
  simp [hd] at h

theorem head?_trimEnd_cons {c : Char} (h : isBlank c = false) (cs : List Char) :
    (trimEnd (c :: cs)).head? = some c := by
  rw [trimEnd, List.reverse_cons, List.dropWhile_append]
  split
  · simp [h]
  · simp

end ShellQuery.Text
