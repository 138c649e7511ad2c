/-
  ShellQuery.Proofs.Digits

  Numbers in decimal digits. A run of ASCII digits is the written form of its value with zeros in
  front (`eq_replicate_append_toDigits`), and a number below a power of ten, padded to that many
  digits, has just that many and keeps its value (`digitsValue_padded`).
-/
import Mathlib.Data.List.Induction
import ShellQuery.Date.Written
import ShellQuery.Number.Numeral

namespace ShellQuery

open Text

/-! ## Digits -/

theorem isAsciiDigit_eq_isDigit (c : Char) : isAsciiDigit c = c.isDigit := by
  rw [isAsciiDigit, Char.isDigit]
  rfl

theorem isAsciiDigit_of_mem_toDigits {n : Nat} {c : Char} (h : c ∈ Nat.toDigits 10 n) :
    isAsciiDigit c = true := by
  rw [isAsciiDigit_eq_isDigit]
  exact Nat.isDigit_of_mem_toDigits (by omega) (by omega) h

/-- A digit is the written form of its value, which is less than ten. -/
theorem toDigits_of_isAsciiDigit {c : Char} (h : isAsciiDigit c = true) :
    digitsValue [c] < 10 ∧ Nat.toDigits 10 (digitsValue [c]) = [c] := by
  have hle : c.toNat ≤ '9'.toNat := by
    simp only [isAsciiDigit, Bool.and_eq_true, decide_eq_true_eq] at h
    exact h.2
  -- there are but ten digits, all among the first characters
  have hchecked : ∀ n : Fin 58, isAsciiDigit (Char.ofNat n) = true →
      digitsValue [Char.ofNat n] < 10 ∧
        Nat.toDigits 10 (digitsValue [Char.ofNat n]) = [Char.ofNat n] := by
    decide +kernel
  have hc := hchecked ⟨c.toNat, Nat.lt_succ_of_le hle⟩
  rw [Char.ofNat_toNat] at hc
  exact hc h

/-! ## Values -/

theorem digitsValue_eq (ds : List Char) : digitsValue ds = Nat.ofDigitChars 10 ds 0 := rfl

theorem digitsValue_append (ds es : List Char) :
    digitsValue (ds ++ es) = 10 ^ es.length * digitsValue ds + digitsValue es := by
  simp only [digitsValue_eq]
  rw [Nat.ofDigitChars_append, Nat.ofDigitChars_eq_ofDigitChars_zero]

@[simp] theorem digitsValue_toDigits (n : Nat) : digitsValue (Nat.toDigits 10 n) = n :=
  Nat.ofDigitChars_ten_toDigits

@[simp] theorem digitsValue_replicate (zeros : Nat) :
    digitsValue (List.replicate zeros '0') = 0 := by
  rw [digitsValue_eq, Nat.ofDigitChars_replicate_zero, Nat.mul_zero]

/-- Zeros in front do not count. -/
theorem digitsValue_replicate_append (zeros : Nat) (ds : List Char) :
    digitsValue (List.replicate zeros '0' ++ ds) = digitsValue ds := by
  rw [digitsValue_append, digitsValue_replicate, Nat.mul_zero, Nat.zero_add]

/-- Digits are the written form of their value with zeros in front. -/
theorem eq_replicate_append_toDigits {ds : List Char} (hne : ds ≠ [])
    (h : ∀ c ∈ ds, isAsciiDigit c = true) :
    ∃ zeros, ds = List.replicate zeros '0' ++ Nat.toDigits 10 (digitsValue ds) := by
  -- from the last digit back, as numbers are written
  induction ds using List.reverseRecOn with
  | nil => exact absurd rfl hne
  | append_singleton ds c ih =>
    obtain ⟨hlt, hc⟩ := toDigits_of_isAsciiDigit (h c (by simp))
    have hvalue : digitsValue (ds ++ [c]) = 10 * digitsValue ds + digitsValue [c] := by
      rw [digitsValue_append, List.length_singleton, Nat.pow_one]
    by_cases hds : ds = []
    · refine ⟨0, ?_⟩
      rw [hds, List.nil_append, hc]
      rfl
    · obtain ⟨zeros, hzeros⟩ := ih hds fun d hd => h d (by simp [hd])
      rcases Nat.eq_zero_or_pos (digitsValue ds) with hzero | hpos
      · -- there are only zeros before the last digit
        refine ⟨zeros + 1, ?_⟩
        rw [hzero, Nat.toDigits_zero, ← List.replicate_succ'] at hzeros
        rw [hvalue, hzero, Nat.mul_zero, Nat.zero_add, hc, ← hzeros]
      · refine ⟨zeros, ?_⟩
        rw [hvalue, ← Nat.toDigits_append_toDigits (by omega) hpos hlt, hc, ← List.append_assoc,
          ← hzeros]

/-! ## Padding -/

namespace Date

variable {width n : Nat}

theorem isAsciiDigit_of_mem_padded {c : Char} (h : c ∈ padded width n) :
    isAsciiDigit c = true := by
  rcases List.mem_append.1 h with hzero | hdigit
  · obtain rfl := List.eq_of_mem_replicate hzero
    rfl
  · exact isAsciiDigit_of_mem_toDigits hdigit

@[simp] theorem digitsValue_padded (width n : Nat) : digitsValue (padded width n) = n := by
  rw [padded, digitsValue_replicate_append, digitsValue_toDigits]

/-- A number that fits the width is written in just so many digits. -/
theorem length_padded (hwidth : 0 < width) (hn : n < 10 ^ width) :
    (padded width n).length = width := by
  have hle := (Nat.length_toDigits_le_iff (by omega) hwidth).2 hn
  rw [padded, List.length_append, List.length_replicate]
  omega

end Date

end ShellQuery
