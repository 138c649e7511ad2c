/-
  ShellQuery.Proofs.Nearest

  Rounding to doubles. `ofRatio` and `ofDecimal` give the double that is nearest to a rational number,
  a tie to the even significand, and an infinity from half a unit beyond the largest finite double on.

  Distances are compared in units of `2 ^ (-1074)`, over the denominator of the number, so that all of
  them are integers. The absolute value of a finite double in such units depends on its magnitude bits
  alone (`grid`). It is a multiple of the unit that a number is rounded to, or lies below all numbers
  that are rounded to this unit.
-/
import Mathlib.Algebra.Order.Field.Rat
import Mathlib.Data.Nat.Log
import Mathlib.Tactic.Linarith
import Mathlib.Tactic.Positivity
import Mathlib.Tactic.Ring
import ShellQuery.Number.Binary64

namespace ShellQuery.Binary64

variable {num den j k m u : ℕ} {x y : Binary64}

/-! ## Halves to even -/

/-- A quotient is rounded down, to the even one of its neighbours, or up. -/
theorem roundHalfEven_cases (hden : 0 < den) (num : ℕ) :
    ∃ q r, num = q * den + r ∧ r < den ∧
      ((2 * r < den ∧ roundHalfEven num den = q) ∨
        (2 * r = den ∧ roundHalfEven num den = q + q % 2) ∨
        (den < 2 * r ∧ roundHalfEven num den = q + 1)) := by
  refine ⟨num / den, num % den, (Nat.div_add_mod' num den).symm, Nat.mod_lt num hden, ?_⟩
  simp only [roundHalfEven]
  split
  · exact .inl ⟨‹_›, rfl⟩
  split
  · exact .inr (.inl ⟨‹_›, rfl⟩)
  · exact .inr (.inr ⟨by omega, rfl⟩)

/-- How far a natural number is from a quotient, by the side on which it lies. -/
theorem distance_of_le {q : ℕ} (r : ℕ) (h : j ≤ q) :
    |(j * den : ℤ) - (q * den + r : ℕ)| = (q - j) * den + r := by
  have hle : (j * den : ℤ) ≤ q * den := by exact_mod_cast Nat.mul_le_mul_right den h
  rw [abs_of_nonpos (by push_cast; linarith)]
  push_cast
  ring

theorem distance_of_lt {q r : ℕ} (hr : r < den) (h : q < j) :
    |(j * den : ℤ) - (q * den + r : ℕ)| = (j - q) * den - r := by
  have hle : ((q + 1) * den : ℤ) ≤ j * den := by exact_mod_cast Nat.mul_le_mul_right den h
  have hr' : (r : ℤ) < den := by exact_mod_cast hr
  rw [abs_of_nonneg (by push_cast; linarith)]
  push_cast
  ring

/-- No natural number is nearer to a quotient than what it is rounded to, and where another one is as
    near, the quotient was rounded to an even one. -/
theorem roundHalfEven_nearest (hden : 0 < den) (num j : ℕ) :
    |(roundHalfEven num den * den : ℤ) - num| ≤ |(j * den : ℤ) - num| ∧
      (|(roundHalfEven num den * den : ℤ) - num| = |(j * den : ℤ) - num| →
        j = roundHalfEven num den ∨ roundHalfEven num den % 2 = 0) := by
  obtain ⟨q, r, rfl, hr, hcases⟩ := roundHalfEven_cases hden num
  have hden' : (0 : ℤ) < den := by exact_mod_cast hden
  -- how far the other numbers are from the quotient, on either side of it
  have hbelow : ∀ i : ℕ, i ≤ q → (0 : ℤ) ≤ (q - i) * den := fun i hi =>
    mul_nonneg (by omega) hden'.le
  have hbelow' : ∀ i : ℕ, i < q → (den : ℤ) ≤ (q - i) * den := fun i hi =>
    le_mul_of_one_le_left hden'.le (by omega)
  have habove : ∀ i : ℕ, q < i → (den : ℤ) ≤ (i - q) * den := fun i hi =>
    le_mul_of_one_le_left hden'.le (by omega)
  have habove' : ∀ i : ℕ, q + 1 < i → (2 * den : ℤ) ≤ (i - q) * den := fun i hi =>
    mul_le_mul_of_nonneg_right (by omega) hden'.le
  have hat : (q - q : ℤ) * den = 0 := by ring
  have hnext : ((q + 1 : ℕ) - q : ℤ) * den = den := by push_cast; ring
  obtain ⟨hhalf, hk⟩ | ⟨hhalf, hk⟩ | ⟨hhalf, hk⟩ := hcases
  · rw [hk, distance_of_le r le_rfl, hat]
    -- rounded down: below the half, `q` itself is nearest
    rcases Nat.lt_trichotomy j q with hj | rfl | hj
    · rw [distance_of_le r hj.le]
      have := hbelow' j hj
      exact ⟨by omega, fun heq => by omega⟩
    · exact ⟨by rw [distance_of_le r le_rfl, hat], fun _ => .inl rfl⟩
    · rw [distance_of_lt hr hj]
      have := habove j hj
      exact ⟨by omega, fun heq => by omega⟩
  · -- a tie: `q` and `q + 1` are as near, and the even one of them is taken
    refine ⟨?_, fun _ => .inr (by omega)⟩
    have hdistance : |(roundHalfEven (q * den + r) den * den : ℤ) - (q * den + r : ℕ)| = r := by
      rcases Nat.mod_two_eq_zero_or_one q with heven | hodd
      · rw [hk, heven, Nat.add_zero, distance_of_le r le_rfl, hat, zero_add]
      · rw [hk, hodd, distance_of_lt hr (Nat.lt_succ_self q), hnext]
        omega
    rw [hdistance]
    rcases Nat.lt_or_ge q j with hj | hj
    · rw [distance_of_lt hr hj]
      have := habove j hj
      omega
    · rw [distance_of_le r hj]
      have := hbelow j hj
      omega
  · rw [hk, distance_of_lt hr (Nat.lt_succ_self q), hnext]
    -- rounded up: above the half, `q + 1` is nearest
    rcases Nat.lt_trichotomy j (q + 1) with hj | rfl | hj
    · rw [distance_of_le r (Nat.le_of_lt_succ hj)]
      have := hbelow j (Nat.le_of_lt_succ hj)
      exact ⟨by omega, fun heq => by omega⟩
    · exact ⟨by rw [distance_of_lt hr (Nat.lt_succ_self q), hnext], fun _ => .inl rfl⟩
    · rw [distance_of_lt hr (Nat.lt_of_succ_lt hj)]
      have := habove' j hj
      exact ⟨by omega, fun heq => by omega⟩

/-- Rounding keeps to bounds that are natural numbers. -/
theorem roundHalfEven_le (hden : 0 < den) (h : num ≤ k * den) : roundHalfEven num den ≤ k := by
  obtain ⟨q, r, rfl, hr, hcases⟩ := roundHalfEven_cases hden num
  rcases Nat.eq_zero_or_pos r with rfl | hpos
  · have hq : q ≤ k := Nat.le_of_mul_le_mul_right (by omega) hden
    omega
  · have hq : q < k := Nat.lt_of_mul_lt_mul_right (a := den) (by omega)
    omega

theorem le_roundHalfEven (hden : 0 < den) (h : k * den ≤ num) : k ≤ roundHalfEven num den := by
  obtain ⟨q, r, rfl, hr, hcases⟩ := roundHalfEven_cases hden num
  have hq : k < q + 1 := Nat.lt_of_mul_lt_mul_right (a := den) (by rw [Nat.add_mul]; omega)
  omega

/-- What is rounded to an even number or beyond is at most half a unit below it. -/
theorem even_le_roundHalfEven_iff (hden : 0 < den) (hk : 0 < k) (num : ℕ) :
    2 * k ≤ roundHalfEven num den ↔ (4 * k - 1) * den ≤ 2 * num := by
  obtain ⟨q, r, rfl, hr, hcases⟩ := roundHalfEven_cases hden num
  rcases Nat.lt_trichotomy (q + 1) (2 * k) with hq | hq | hq
  · have hle : (2 * q + 2 + 1) * den ≤ (4 * k - 1) * den := Nat.mul_le_mul_right den (by omega)
    have hexpand : (2 * q + 2 + 1) * den = 2 * (q * den) + 3 * den := by ring
    exact iff_of_false (by omega) (by omega)
  · have hexpand : (4 * k - 1) * den = 2 * (q * den) + den := by
      rw [show 4 * k - 1 = 2 * q + 1 by omega]
      ring
    omega
  · have hle : (4 * k - 1) * den ≤ 2 * q * den := Nat.mul_le_mul_right den (by omega)
    have hexpand : 2 * q * den = 2 * (q * den) := by ring
    exact iff_of_true (by omega) (by omega)

/-! ## The grid of doubles -/

/-- The absolute value of a finite double in units of `2 ^ (-1074)`, by its magnitude bits. -/
def grid (m : ℕ) : ℕ :=
  (if m / 2 ^ 52 = 0 then m % 2 ^ 52 else m % 2 ^ 52 + 2 ^ 52) * 2 ^ (m / 2 ^ 52 - 1)

theorem scaled_eq_grid (x : Binary64) : x.scaled = grid x.magnitude := rfl

/-- A significand of full length, or one in the smallest unit, is put on the grid. -/
theorem grid_of_significand (hk : k ≤ 2 ^ 53) (hfull : u = 0 ∨ 2 ^ 52 ≤ k) :
    grid (u * 2 ^ 52 + k) = k * 2 ^ u := by
  rcases Nat.lt_or_ge k (2 ^ 52) with hlow | hhigh
  · obtain rfl : u = 0 := by omega
    have hfield : (0 * 2 ^ 52 + k) / 2 ^ 52 = 0 := by omega
    have hfraction : (0 * 2 ^ 52 + k) % 2 ^ 52 = k := by omega
    rw [grid, hfield, if_pos rfl, hfraction, Nat.zero_sub]
  · rcases Nat.lt_or_ge k (2 ^ 53) with hlt | hge
    · have hfield : (u * 2 ^ 52 + k) / 2 ^ 52 = u + 1 := by omega
      have hfraction : (u * 2 ^ 52 + k) % 2 ^ 52 + 2 ^ 52 = k := by omega
      rw [grid, hfield, if_neg (by omega), hfraction, Nat.add_sub_cancel]
    -- the significand has one bit more, and is a power of two
    · obtain rfl : k = 2 ^ 53 := by omega
      have hfield : (u * 2 ^ 52 + 2 ^ 53) / 2 ^ 52 = u + 2 := by omega
      have hfraction : (u * 2 ^ 52 + 2 ^ 53) % 2 ^ 52 = 0 := by omega
      rw [grid, hfield, if_neg (by omega), hfraction, Nat.zero_add,
        show u + 2 - 1 = u + 1 from rfl, Nat.pow_succ 2 u]
      ring

/-- What is on the grid is a multiple of a unit, or lies below all significands of full length in
    this unit. -/
theorem grid_cases (m u : ℕ) : (∃ j, grid m = j * 2 ^ u) ∨ grid m < 2 ^ 52 * 2 ^ u := by
  have hfraction : m % 2 ^ 52 < 2 ^ 52 := Nat.mod_lt _ (by positivity)
  have hunit : 0 < 2 ^ u := Nat.two_pow_pos u
  rw [grid]
  generalize m % 2 ^ 52 = f at hfraction ⊢
  generalize m / 2 ^ 52 = e
  rcases e with _ | e
  · right
    rw [if_pos rfl, Nat.zero_sub, Nat.pow_zero, Nat.mul_one]
    calc f < 2 ^ 52 * 1 := by omega
      _ ≤ 2 ^ 52 * 2 ^ u := Nat.mul_le_mul_left _ hunit
  · rw [if_neg (by omega), Nat.add_sub_cancel]
    rcases Nat.lt_or_ge e u with hlt | hge
    · right
      calc (f + 2 ^ 52) * 2 ^ e < 2 ^ 53 * 2 ^ e :=
            Nat.mul_lt_mul_of_pos_right (by omega) (Nat.two_pow_pos e)
        _ = 2 ^ 52 * 2 ^ (e + 1) := by rw [Nat.pow_succ 2 e]; ring
        _ ≤ 2 ^ 52 * 2 ^ u := Nat.mul_le_mul_left _ (Nat.pow_le_pow_right (by omega) hlt)
    · left
      refine ⟨(f + 2 ^ 52) * 2 ^ (e - u), ?_⟩
      rw [Nat.mul_assoc, ← Nat.pow_add, Nat.sub_add_cancel hge]

/-! ## Rounding quotients -/

/-- The unit that a quotient is rounded to: its significand is less than `2 ^ 53`, and has full length
    unless the unit is the smallest one. -/
theorem unitFor_bounds (hden : 0 < den) (num : ℕ) :
    num < 2 ^ 53 * (den * 2 ^ unitFor (num / den)) ∧
      (unitFor (num / den) = 0 ∨ 2 ^ 52 * (den * 2 ^ unitFor (num / den)) ≤ num) := by
  have hmul : ∀ i, 2 ^ i * (den * 2 ^ unitFor (num / den)) = 2 ^ (unitFor (num / den) + i) * den := by
    intro i
    rw [Nat.pow_add]
    ring
  rw [hmul, hmul, ← Nat.div_lt_iff_lt_mul hden, ← Nat.le_div_iff_mul_le hden]
  generalize num / den = s
  have hlt : s < 2 ^ (unitFor s + 53) :=
    Nat.lt_log2_self.trans_le (Nat.pow_le_pow_right (by omega) (by rw [unitFor]; omega))
  rcases Nat.eq_zero_or_pos (unitFor s) with hzero | hpos
  · exact ⟨hlt, .inl hzero⟩
  · have hs : s ≠ 0 := by
      rintro rfl
      simp [unitFor] at hpos
    have hexponent : unitFor s + 52 = s.log2 := by
      rw [unitFor] at hpos ⊢
      omega
    exact ⟨hlt, .inr (hexponent ▸ Nat.log2_self_le hs)⟩

/-- The magnitude bits of what a quotient, in units of `2 ^ (-1074)`, is rounded to. -/
def rounded (num den : ℕ) : ℕ :=
  unitFor (num / den) * 2 ^ 52 + roundHalfEven num (den * 2 ^ unitFor (num / den))

theorem ofRatio_eq_rounded (negative : Bool) (num den : ℕ) :
    ofRatio negative num den =
      ofFields negative (min (rounded (num * 2 ^ (1074 : ℕ)) den) (2047 * 2 ^ 52)) :=
  rfl

theorem grid_rounded (hden : 0 < den) (num : ℕ) :
    grid (rounded num den) =
      roundHalfEven num (den * 2 ^ unitFor (num / den)) * 2 ^ unitFor (num / den) := by
  obtain ⟨hlt, hfull⟩ := unitFor_bounds hden num
  have hunit : 0 < den * 2 ^ unitFor (num / den) := Nat.mul_pos hden (Nat.two_pow_pos _)
  exact grid_of_significand (roundHalfEven_le hunit hlt.le)
    (hfull.imp_right (le_roundHalfEven hunit))

/-- Nothing on the grid is nearer to a quotient than what it is rounded to, and where another double
    is as near, the quotient was rounded to an even significand. -/
theorem rounded_nearest (hden : 0 < den) (num m : ℕ) :
    |(grid (rounded num den) * den : ℤ) - num| ≤ |(grid m * den : ℤ) - num| ∧
      (|(grid (rounded num den) * den : ℤ) - num| = |(grid m * den : ℤ) - num| →
        grid m = grid (rounded num den) ∨ rounded num den % 2 = 0) := by
  obtain ⟨-, hfull⟩ := unitFor_bounds hden num
  have hgrid := grid_rounded hden num
  rw [rounded] at hgrid ⊢
  generalize unitFor (num / den) = u at hfull hgrid ⊢
  have hnearest := roundHalfEven_nearest (Nat.mul_pos hden (Nat.two_pow_pos u)) num
  generalize roundHalfEven num (den * 2 ^ u) = k at hgrid hnearest ⊢
  have hscale : ∀ j : ℕ, ((j * 2 ^ u : ℕ) * den : ℤ) = j * (den * 2 ^ u : ℕ) := by
    intro j
    push_cast
    ring
  rw [hgrid, hscale]
  have hmultiple : ∀ j, grid m = j * 2 ^ u →
      |(k * (den * 2 ^ u : ℕ) : ℤ) - num| ≤ |(grid m * den : ℤ) - num| ∧
        (|(k * (den * 2 ^ u : ℕ) : ℤ) - num| = |(grid m * den : ℤ) - num| →
          grid m = k * 2 ^ u ∨ (u * 2 ^ 52 + k) % 2 = 0) := by
    intro j hj
    rw [hj, hscale]
    refine ⟨(hnearest j).1, fun heq => ?_⟩
    rcases (hnearest j).2 heq with rfl | heven
    · exact .inl rfl
    · exact .inr (by omega)
  rcases grid_cases m u with ⟨j, hj⟩ | hlow
  · exact hmultiple j hj
  rcases hfull with rfl | hfull
  · exact hmultiple (grid m) (by rw [Nat.pow_zero, Nat.mul_one])
  -- below the significands of full length, all of which are at most as far away
  · have hbelow : grid m * den < 2 ^ 52 * (den * 2 ^ u) :=
      calc grid m * den < 2 ^ 52 * 2 ^ u * den := Nat.mul_lt_mul_of_pos_right hlow hden
        _ = 2 ^ 52 * (den * 2 ^ u) := by ring
    have hfirst := (hnearest (2 ^ 52)).1
    have hdistance : |((2 ^ 52 : ℕ) * (den * 2 ^ u : ℕ) : ℤ) - num| =
        num - 2 ^ 52 * (den * 2 ^ u : ℕ) := by
      rw [abs_of_nonpos (by omega)]
      omega
    have hfarther : (num - 2 ^ 52 * (den * 2 ^ u : ℕ) : ℤ) < |(grid m * den : ℤ) - num| := by
      have hbelow' : (grid m * den : ℤ) < 2 ^ 52 * (den * 2 ^ u : ℕ) := by exact_mod_cast hbelow
      have hle : (2 ^ 52 * (den * 2 ^ u : ℕ) : ℤ) ≤ num := by exact_mod_cast hfull
      rw [abs_of_nonpos (by linarith)]
      linarith
    rw [hdistance] at hfirst
    exact ⟨by linarith, fun heq => by linarith⟩

/-- What is rounded beyond the largest finite double is at most half a unit below the next power of
    two. -/
theorem overflow_le_rounded_iff (hden : 0 < den) (num : ℕ) :
    2047 * 2 ^ 52 ≤ rounded num den ↔ (2 ^ 54 - 1) * (den * 2 ^ (2044 : ℕ)) ≤ num := by
  obtain ⟨hlt, hfull⟩ := unitFor_bounds hden num
  rw [rounded]
  generalize unitFor (num / den) = u at hlt hfull ⊢
  have hunit : 0 < den * 2 ^ u := Nat.mul_pos hden (Nat.two_pow_pos u)
  -- kept as a variable, so that no power of it is computed
  generalize htop : 2044 = top
  have hmono : ∀ {i j}, i ≤ j → den * 2 ^ i ≤ den * 2 ^ j := fun hij =>
    Nat.mul_le_mul_left den (Nat.pow_le_pow_right Nat.two_pos hij)
  have hscale : ∀ i, den * 2 ^ (top + i) = den * 2 ^ top * 2 ^ i := fun i => by
    rw [Nat.pow_add, Nat.mul_assoc]
  rcases Nat.lt_trichotomy u (top + 1) with hu | rfl | hu
  · have hle : den * 2 ^ u ≤ den * 2 ^ top := hmono (Nat.le_of_lt_succ hu)
    have hk : roundHalfEven num (den * 2 ^ u) ≤ 2 ^ 53 := roundHalfEven_le hunit hlt.le
    exact iff_of_false (by omega) (by omega)
  · have hiff := even_le_roundHalfEven_iff hunit (k := 2 ^ 52) (by omega) num
    rw [hscale 1] at hiff ⊢
    omega
  · have hle : den * 2 ^ top * 2 ^ 2 ≤ den * 2 ^ u := (hscale 2).symm.trans_le (hmono hu)
    have hfull : 2 ^ 52 * (den * 2 ^ u) ≤ num := hfull.resolve_left (by omega)
    have hk : 2 ^ 52 ≤ roundHalfEven num (den * 2 ^ u) := le_roundHalfEven hunit hfull
    exact iff_of_true (by omega) (by omega)

/-! ## Fields -/

theorem toNat_bits_ofFields (negative : Bool) (hm : m < 2 ^ 63) :
    (ofFields negative m).bits.toNat = if negative then 2 ^ 63 + m else m := by
  refine UInt64.toNat_ofNat_of_lt (show _ < 2 ^ 64 from ?_)
  split <;> omega

theorem magnitude_ofFields (negative : Bool) (hm : m < 2 ^ 63) :
    (ofFields negative m).magnitude = m := by
  rw [magnitude, toNat_bits_ofFields negative hm]
  split <;> omega

theorem negative_ofFields (negative : Bool) (hm : m < 2 ^ 63) :
    (ofFields negative m).negative = negative := by
  rw [Binary64.negative, toNat_bits_ofFields negative hm]
  cases negative
  · simpa using hm
  · simp

theorem isFinite_iff : x.isFinite = true ↔ x.magnitude < 2047 * 2 ^ 52 := by
  rw [isFinite, exponentField, decide_eq_true_iff, Nat.div_lt_iff_lt_mul (by positivity)]

/-- The parity of a significand is that of the bits. -/
theorem significand_mod_two (x : Binary64) : x.significand % 2 = x.magnitude % 2 := by
  rw [significand, fractionField]
  split <;> omega

/-! ## Nearest doubles -/

/-- The absolute value of a finite double. -/
def absolute (x : Binary64) : ℚ :=
  x.scaled / 2 ^ 1074

/-- Half a unit beyond the largest finite double: where rounding to infinity begins. -/
def overflow : ℚ :=
  (2 ^ 54 - 1) * 2 ^ 970

/-- What a number of the given sign and absolute value is rounded to: the nearest of all finite
    doubles, one with an even significand if two of them are as near, or an infinity. -/
structure Nearest (negative : Bool) (amount : ℚ) (x : Binary64) : Prop where
  sign : x.negative = negative
  isFinite : amount < overflow → x.isFinite
  nearest : amount < overflow → ∀ y : Binary64, y.isFinite →
    |x.absolute - amount| ≤ |y.absolute - amount|
  even : amount < overflow → ∀ y : Binary64, y.isFinite →
    |x.absolute - amount| = |y.absolute - amount| →
      y.absolute = x.absolute ∨ x.significand % 2 = 0
  isInfinite : overflow ≤ amount → x.isInfinite

theorem cast_two_pow (i : ℕ) : ((2 ^ i : ℕ) : ℚ) = 2 ^ i :=
  Nat.cast_pow 2 i

/-- Distances from a quotient, as integers over a common denominator. -/
theorem distance_eq {c : ℕ} (hc : 0 < c) (hden : 0 < den) (a num : ℕ) :
    |(a / c - num / den : ℚ)| = (|(a * den : ℤ) - (num * c : ℕ)| : ℤ) / (c * den) := by
  have hc' : (0 : ℚ) < c := by exact_mod_cast hc
  have hden' : (0 : ℚ) < den := by exact_mod_cast hden
  rw [div_sub_div _ _ hc'.ne' hden'.ne', abs_div, abs_of_pos (mul_pos hc' hden')]
  push_cast
  rw [mul_comm (num : ℚ)]

theorem overflow_le_iff (hden : 0 < den) (num : ℕ) :
    overflow ≤ num / den ↔ (2 ^ 54 - 1) * (den * 2 ^ (2044 : ℕ)) ≤ num * 2 ^ (1074 : ℕ) := by
  have hden' : (0 : ℚ) < den := by exact_mod_cast hden
  have hscale : (0 : ℚ) < 2 ^ 1074 := by positivity
  have hpow : (2 : ℚ) ^ 2044 = 2 ^ 970 * 2 ^ 1074 := by
    rw [← pow_add]
  have hfull : ((2 ^ 54 - 1 : ℕ) : ℚ) = 2 ^ 54 - 1 := by norm_num
  rw [le_div_iff₀ hden', ← mul_le_mul_iff_left₀ hscale, ← Nat.cast_le (α := ℚ), Nat.cast_mul,
    Nat.cast_mul den, Nat.cast_mul num, cast_two_pow 2044, cast_two_pow 1074, hfull,
    hpow, overflow]
  generalize (2 : ℚ) ^ 970 = a
  generalize (2 : ℚ) ^ 1074 = b
  ring_nf

theorem rounded_lt_of_lt (hden : 0 < den) (h : (num / den : ℚ) < overflow) :
    rounded (num * 2 ^ (1074 : ℕ)) den < 2047 * 2 ^ 52 := by
  rw [← not_le] at h ⊢
  rwa [overflow_le_rounded_iff hden, ← overflow_le_iff hden]

/-- A quotient is rounded to the double that is nearest to it. -/
theorem nearest_ofRatio (negative : Bool) (num : ℕ) (hden : 0 < den) :
    Nearest negative (num / den) (ofRatio negative num den) := by
  rw [ofRatio_eq_rounded]
  have hmin : min (rounded (num * 2 ^ (1074 : ℕ)) den) (2047 * 2 ^ 52) < 2 ^ 63 := by omega
  have hsign := negative_ofFields negative hmin
  have hmagnitude := magnitude_ofFields negative hmin
  generalize hx : ofFields negative _ = x at hsign hmagnitude ⊢
  have hgrid : (num / den : ℚ) < overflow →
      x.magnitude = rounded (num * 2 ^ (1074 : ℕ)) den := fun h =>
    hmagnitude.trans (min_eq_left (rounded_lt_of_lt hden h).le)
  have hdistance : ∀ y : Binary64, |y.absolute - num / den| =
      (|(grid y.magnitude * den : ℤ) - (num * 2 ^ (1074 : ℕ) : ℕ)| : ℤ) /
        ((2 ^ (1074 : ℕ) : ℕ) * den) := by
    intro y
    rw [absolute, ← cast_two_pow, distance_eq (Nat.two_pow_pos 1074) hden, scaled_eq_grid]
  have hscale : (0 : ℚ) < (2 ^ (1074 : ℕ) : ℕ) * den := by
    exact_mod_cast Nat.mul_pos (Nat.two_pow_pos 1074) hden
  refine ⟨hsign, fun h => ?_, fun h y _ => ?_, fun h y _ heq => ?_, fun h => ?_⟩
  · rw [isFinite_iff, hgrid h]
    exact rounded_lt_of_lt hden h
  · rw [hdistance, hdistance, div_le_div_iff_of_pos_right hscale, Int.cast_le, hgrid h]
    exact (rounded_nearest hden _ y.magnitude).1
  · rw [hdistance, hdistance, div_left_inj' hscale.ne', Int.cast_inj, hgrid h] at heq
    rw [significand_mod_two, hgrid h, absolute, absolute, scaled_eq_grid, scaled_eq_grid, hgrid h]
    exact ((rounded_nearest hden _ y.magnitude).2 heq).imp_left fun hy => by rw [hy]
  · rw [overflow_le_iff hden, ← overflow_le_rounded_iff hden] at h
    rw [isInfinite, hmagnitude, min_eq_right h, decide_eq_true_iff]

/-! ## Powers of ten -/

theorem two_pow_le_ten_pow (i : ℕ) : (2 : ℚ) ^ (43 * i) ≤ 10 ^ (13 * i) := by
  rw [pow_mul, pow_mul]
  exact pow_le_pow_left₀ (by positivity) (by norm_num) i

theorem overflow_le_ten_pow : overflow ≤ 10 ^ 310 := by
  have hfull : (2 ^ 54 - 1 : ℚ) ≤ 2 ^ 54 := by norm_num
  have hrest : (2 ^ 54 * 2 ^ 24 : ℚ) ≤ 10 ^ 24 := by norm_num
  calc overflow = (2 ^ 54 - 1) * (2 ^ 24 * 2 ^ (43 * 22)) := by rw [overflow, ← pow_add]
    _ ≤ 2 ^ 54 * (2 ^ 24 * 2 ^ (43 * 22)) := mul_le_mul_of_nonneg_right hfull (by positivity)
    _ = 2 ^ 54 * 2 ^ 24 * 2 ^ (43 * 22) := (mul_assoc _ _ _).symm
    _ ≤ 10 ^ 24 * 10 ^ (13 * 22) :=
      mul_le_mul hrest (two_pow_le_ten_pow 22) (by positivity) (by positivity)
    _ = 10 ^ 310 := by rw [← pow_add]

/-- A number is between the powers of ten that the length of its decimal digits gives. -/
theorem zpow_length_toDigits {coefficient : ℕ} (h : coefficient ≠ 0) :
    (10 : ℚ) ^ (((Nat.toDigits 10 coefficient).length : ℤ) - 1) ≤ coefficient ∧
      (coefficient : ℚ) < 10 ^ ((Nat.toDigits 10 coefficient).length : ℤ) := by
  have hiff : ∀ k, 0 < k → ((Nat.toDigits 10 coefficient).length ≤ k ↔ coefficient < 10 ^ k) :=
    fun k hk => Nat.length_toDigits_le_iff (by omega) hk
  have hpos : 0 < (Nat.toDigits 10 coefficient).length := Nat.length_toDigits_pos
  generalize (Nat.toDigits 10 coefficient).length = d at hiff hpos ⊢
  obtain ⟨d, rfl⟩ := Nat.exists_eq_add_of_le' hpos
  have hlt : coefficient < 10 ^ (d + 1) := (hiff (d + 1) d.succ_pos).1 le_rfl
  have hle : 10 ^ d ≤ coefficient := by
    rcases Nat.eq_zero_or_pos d with rfl | hd
    · exact Nat.one_le_iff_ne_zero.2 h
    · exact Nat.le_of_not_lt fun hlt => absurd ((hiff d hd).2 hlt) (by omega)
  rw [Nat.cast_add, Nat.cast_one, add_sub_cancel_right]
  exact ⟨by exact_mod_cast hle, by exact_mod_cast hlt⟩

/-- A number that is at least as close to zero as to the smallest double beside it is rounded to
    zero. -/
theorem nearest_zero (negative : Bool) {amount : ℚ} (hpos : 0 ≤ amount)
    (hsmall : 2 * amount * 2 ^ 1074 ≤ 1) : Nearest negative amount (zero negative) := by
  have hmagnitude : (zero negative).magnitude = 0 := magnitude_ofFields negative (by omega)
  have habsolute : (zero negative).absolute = 0 := by
    rw [absolute, scaled_eq_grid, hmagnitude]
    exact zero_div _
  have hscale : (0 : ℚ) < 2 ^ 1074 := by positivity
  refine ⟨negative_ofFields negative (by omega), fun _ => ?_, fun _ y _ => ?_, fun _ y _ _ => .inr ?_,
    fun h => ?_⟩
  · rw [isFinite_iff, hmagnitude]
    omega
  · rw [habsolute, zero_sub, abs_neg, abs_of_nonneg hpos]
    rcases Nat.eq_zero_or_pos y.scaled with hy | hy
    · rw [absolute, hy, Nat.cast_zero, zero_div, zero_sub, abs_neg]
      exact le_abs_self amount
    · have hunit : 2 * amount ≤ y.absolute := by
        rw [absolute, le_div_iff₀ hscale]
        exact hsmall.trans (by exact_mod_cast hy)
      exact le_trans (by linarith) (le_abs_self _)
  · rw [significand_mod_two, hmagnitude]
  · have hbig : (1 : ℚ) ≤ overflow := by
      rw [overflow]
      exact one_le_mul_of_one_le_of_one_le (by norm_num) (one_le_pow₀ (by norm_num))
    have htwo : 2 * amount ≤ 2 * amount * 2 ^ 1074 :=
      le_mul_of_one_le_right (by positivity) (one_le_pow₀ (by norm_num))
    exact absurd (htwo.trans hsmall) (by linarith only [h, hbig])

theorem nearest_infinity (negative : Bool) {amount : ℚ} (h : overflow ≤ amount) :
    Nearest negative amount (infinity negative) := by
  have hmagnitude := magnitude_ofFields (m := 2047 * 2 ^ 52) negative (by omega)
  exact ⟨negative_ofFields negative (by omega), fun hlt => absurd h hlt.not_ge,
    fun hlt => absurd h hlt.not_ge, fun hlt => absurd h hlt.not_ge,
    fun _ => by rw [isInfinite, infinity, hmagnitude, decide_eq_true_iff]⟩

/-- A decimal number is rounded to the double that is nearest to it. -/
theorem nearest_ofDecimal (negative : Bool) (coefficient : ℕ) (exponent : ℤ) :
    Nearest negative (coefficient * 10 ^ exponent) (ofDecimal negative coefficient exponent) := by
  have hten : (0 : ℚ) < 10 ^ exponent := zpow_pos (by norm_num) exponent
  rw [ofDecimal.eq_def]
  dsimp only
  split
  · rename_i hzero
    rw [hzero, Nat.cast_zero, zero_mul]
    exact nearest_zero negative le_rfl (by norm_num)
  rename_i hne
  obtain ⟨hle, hlt⟩ := zpow_length_toDigits hne
  split
  · rename_i hhigh
    -- the number of digits and the exponent alone put it beyond the largest double
    refine nearest_infinity negative (overflow_le_ten_pow.trans ?_)
    calc (10 : ℚ) ^ 310 = 10 ^ ((310 : ℕ) : ℤ) := (zpow_natCast 10 310).symm
      _ ≤ 10 ^ (((Nat.toDigits 10 coefficient).length : ℤ) - 1 + exponent) :=
        zpow_le_zpow_right₀ (by norm_num) (by omega)
      _ = 10 ^ (((Nat.toDigits 10 coefficient).length : ℤ) - 1) * 10 ^ exponent :=
        zpow_add₀ (by norm_num) _ _
      _ ≤ coefficient * 10 ^ exponent := mul_le_mul_of_nonneg_right hle hten.le
  split
  · rename_i hlow
    -- or below half of the smallest one
    refine nearest_zero negative (mul_nonneg coefficient.cast_nonneg hten.le) ?_
    have hsmall : (coefficient : ℚ) * 10 ^ exponent ≤ 10 ^ (-(325 : ℕ) : ℤ) :=
      calc (coefficient : ℚ) * 10 ^ exponent
          ≤ 10 ^ ((Nat.toDigits 10 coefficient).length : ℤ) * 10 ^ exponent :=
            mul_le_mul_of_nonneg_right hlt.le hten.le
        _ = 10 ^ (((Nat.toDigits 10 coefficient).length : ℤ) + exponent) :=
            (zpow_add₀ (by norm_num) _ _).symm
        _ ≤ 10 ^ (-(325 : ℕ) : ℤ) := zpow_le_zpow_right₀ (by norm_num) (by omega)
    have hpow : (2 : ℚ) ^ (43 * 25) = 2 ^ 1074 * 2 := pow_succ 2 1074
    calc 2 * ((coefficient : ℚ) * 10 ^ exponent) * 2 ^ 1074
        = coefficient * 10 ^ exponent * 2 ^ (43 * 25) := by
          rw [hpow, mul_comm 2, mul_assoc _ 2, mul_comm 2]
      _ ≤ 10 ^ (-(325 : ℕ) : ℤ) * 10 ^ 325 :=
          mul_le_mul hsmall (two_pow_le_ten_pow 25) (by positivity) (zpow_nonneg (by norm_num) _)
      _ = 1 := by
          rw [zpow_neg, zpow_natCast]
          exact inv_mul_cancel₀ (by positivity)
  -- in between, the ratio is formed exactly and rounded once
  cases exponent with
  | ofNat e =>
    have hnearest := nearest_ofRatio negative (coefficient * 10 ^ e) Nat.one_pos
    rwa [Nat.cast_one, div_one, Nat.cast_mul, Nat.cast_pow, Nat.cast_ofNat] at hnearest
  | negSucc e =>
    have hden : 0 < 10 ^ (e + 1) := by positivity
    have hnearest := nearest_ofRatio negative coefficient hden
    rwa [Nat.cast_pow, Nat.cast_ofNat, div_eq_mul_inv, ← zpow_negSucc] at hnearest

end ShellQuery.Binary64
