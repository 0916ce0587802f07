import PocketCalculator.Decimal.Notation
import PocketCalculator.Proofs.Decimal.Value

/-!
# Three significant digits

A decimal rounded to three digits is one of three digits, off by half a unit of its last place at
most (`Decimal.exists_roundDigits_eq`), and every number close to a decimal of three digits is
rounded to it (`Decimal.roundDigits_eq_of_near`): from above by cutting, from below by the carry,
which reaches the next power of ten behind three nines. A number of fewer digits stays as it is.
-/

namespace PocketCalculator

namespace Decimal

variable {d : Decimal} {a c k : ℕ} {i j : ℤ} {f : ℚ}

theorem lt_digitCount_iff (hk : 0 < k) : k < d.digitCount ↔ 10 ^ k ≤ d.coefficient := by
  rw [← not_lt (b := 10 ^ k), ← Nat.length_toDigits_le_iff (by norm_num) hk, not_le]
  rfl

theorem digitCount_eq_three (hlower : 100 ≤ a) (hupper : a ≤ 999) (j : ℤ) :
    (Decimal.mk a j).digitCount = 3 := by
  have htwo : 2 < (Decimal.mk a j).digitCount := (lt_digitCount_iff (by norm_num)).mpr hlower
  have hthree : ¬ 3 < (Decimal.mk a j).digitCount :=
    mt (lt_digitCount_iff (by norm_num)).mp (not_le.mpr (Nat.lt_succ_of_le hupper))
  omega

theorem succ_eq (hlower : 100 ≤ a) (hupper : a ≤ 999) (j : ℤ) :
    (Decimal.mk a j).succ = if a = 999 then ⟨100, j + 1⟩ else ⟨a + 1, j⟩ := by
  rw [succ, digitCount_eq_three hlower hupper]
  by_cases ha : a = 999
  · subst ha
    rfl
  · have hcarry : ¬ a + 1 = Nat.pow 10 3 := by
      show ¬ a + 1 = 1000
      omega
    rw [if_neg hcarry, if_neg ha]

theorem leading_three_bounds (h : d.digitCount = k + 3) :
    100 ≤ d.coefficient / 10 ^ k ∧ d.coefficient / 10 ^ k ≤ 999 := by
  have hlower := (lt_digitCount_iff (d := d) (k := k + 2) (by omega)).mp (by omega)
  have hupper := mt (lt_digitCount_iff (d := d) (k := k + 3) (by omega)).mpr (by omega)
  have hpos : 0 < 10 ^ k := by positivity
  rw [pow_add, mul_comm] at hlower hupper
  constructor
  · exact (Nat.le_div_iff_mul_le hpos).mpr hlower
  · exact Nat.le_of_lt_succ ((Nat.div_lt_iff_lt_mul hpos).mpr (not_le.mp hupper))

/-- The first three digits, and what part of a unit behind them is cut off. -/
theorem exists_truncate_eq (h : 3 ≤ d.digitCount) :
    ∃ (a : ℕ) (j : ℤ) (f : ℚ), 100 ≤ a ∧ a ≤ 999 ∧ 0 ≤ f ∧ f < 1 ∧ d.toRat = (a + f) * 10 ^ j ∧
      d.roundDigits 3 =
        if f < 1 / 2 ∨ f = 1 / 2 ∧ a % 2 = 0 then ⟨a, j⟩
        else if a = 999 then ⟨100, j + 1⟩ else ⟨a + 1, j⟩ := by
  obtain ⟨k, hk⟩ : ∃ k, d.digitCount = k + 3 := ⟨d.digitCount - 3, by omega⟩
  have hdropped : d.digitCount - 3 = k := by omega
  have hpos : 0 < 10 ^ k := by positivity
  have hpos' : (0 : ℚ) < 10 ^ k := by positivity
  obtain ⟨hage, hale⟩ := leading_three_bounds hk
  obtain ⟨a, ha⟩ : ∃ a, a = d.coefficient / 10 ^ k := ⟨_, rfl⟩
  rw [← ha] at hage hale
  refine ⟨a, d.exponent + k, (d.coefficient % 10 ^ k : ℕ) / 10 ^ k, hage, hale, by positivity, ?_,
    ?_, ?_⟩
  · rw [div_lt_one hpos']
    exact_mod_cast Nat.mod_lt _ hpos
  · have hsplit : (d.coefficient : ℚ) = 10 ^ k * a + (d.coefficient % 10 ^ k : ℕ) := by
      rw [ha]
      exact_mod_cast (Nat.div_add_mod d.coefficient (10 ^ k)).symm
    rw [toRat, hsplit, zpow_add₀ (by norm_num), zpow_natCast]
    field_simp
  · have htruncate : d.truncate 3 = ⟨a, d.exponent + k⟩ := by
      rw [truncate, hdropped, Nat.pow_eq, ← ha]
    have hless : 2 * (d.coefficient % 10 ^ k) < 10 ^ k ↔
        ((d.coefficient % 10 ^ k : ℕ) : ℚ) / 10 ^ k < 1 / 2 := by
      rw [div_lt_div_iff₀ hpos' (by norm_num), one_mul, mul_comm 2]
      exact_mod_cast Iff.rfl
    have hequal : 2 * (d.coefficient % 10 ^ k) = 10 ^ k ↔
        ((d.coefficient % 10 ^ k : ℕ) : ℚ) / 10 ^ k = 1 / 2 := by
      rw [div_eq_div_iff hpos'.ne' (by norm_num), one_mul, mul_comm 2]
      exact_mod_cast Iff.rfl
    simp only [roundDigits, hdropped, Nat.pow_eq, htruncate, hless, hequal, succ_eq hage hale]

/-- Rounding to three digits. -/
theorem exists_roundDigits_eq (h : 3 ≤ d.digitCount) :
    ∃ (c : ℕ) (j : ℤ), d.roundDigits 3 = ⟨c, j⟩ ∧ 100 ≤ c ∧ c ≤ 999 ∧
      |d.toRat - c * 10 ^ j| ≤ 10 ^ j / 2 := by
  obtain ⟨a, j, f, hage, hale, hnonneg, hlt, hvalue, hround⟩ := exists_truncate_eq h
  have hpow : (0 : ℚ) < 10 ^ j := by positivity
  rw [hround, hvalue]
  split
  · next hdown =>
    have hhalf : f ≤ 1 / 2 := by
      rcases hdown with hdown | hdown
      · exact hdown.le
      · exact hdown.1.le
    refine ⟨a, j, rfl, hage, hale, ?_⟩
    have hrest : (a + f) * (10 : ℚ) ^ j - a * 10 ^ j = f * 10 ^ j := by ring
    rw [hrest, abs_of_nonneg (by positivity)]
    calc
      f * (10 : ℚ) ^ j ≤ 1 / 2 * 10 ^ j := mul_le_mul_of_nonneg_right hhalf hpow.le
      _ = 10 ^ j / 2 := by ring
  · next hup =>
    have hhalf : 1 / 2 ≤ f := by
      by_contra hless
      exact hup (.inl (not_le.mp hless))
    have hrest : |(a + f) * (10 : ℚ) ^ j - (a + 1) * 10 ^ j| ≤ 10 ^ j / 2 := by
      have hgap : (a + f) * (10 : ℚ) ^ j - (a + 1) * 10 ^ j = -((1 - f) * 10 ^ j) := by ring
      rw [hgap, abs_neg, abs_of_nonneg (mul_nonneg (by linarith) hpow.le)]
      calc
        (1 - f) * (10 : ℚ) ^ j ≤ 1 / 2 * 10 ^ j :=
          mul_le_mul_of_nonneg_right (by linarith) hpow.le
        _ = 10 ^ j / 2 := by ring
    split
    · next hnines =>
      refine ⟨100, j + 1, rfl, le_rfl, by norm_num, ?_⟩
      have hcarry : ((100 : ℕ) : ℚ) * 10 ^ (j + 1) = (a + 1) * 10 ^ j := by
        rw [hnines, zpow_add_one₀ (by norm_num)]
        push_cast
        ring
      rw [hcarry, zpow_add_one₀ (by norm_num)]
      linarith
    · next hnines =>
      refine ⟨a + 1, j, rfl, by omega, by omega, ?_⟩
      push_cast
      exact hrest

/-! ### Any number of digits -/

theorem roundDigits_eq_self (h : d.digitCount ≤ 3) : d.roundDigits 3 = d := by
  have hdropped : d.digitCount - 3 = 0 := Nat.sub_eq_zero_of_le h
  simp [roundDigits, truncate, hdropped, Nat.mod_one]

theorem digitCount_roundDigits_le (d : Decimal) : (d.roundDigits 3).digitCount ≤ 3 := by
  rcases le_total d.digitCount 3 with hfew | hmany
  · rwa [roundDigits_eq_self hfew]
  · obtain ⟨c, j, hround, hlower, hupper, -⟩ := exists_roundDigits_eq hmany
    rw [hround, digitCount_eq_three hlower hupper]

theorem abs_toRat_sub_roundDigits_le (d : Decimal) :
    |d.toRat - (d.roundDigits 3).toRat| ≤ 10 ^ (d.roundDigits 3).exponent / 2 := by
  rcases le_total d.digitCount 3 with hfew | hmany
  · rw [roundDigits_eq_self hfew, sub_self, abs_zero]
    positivity
  · obtain ⟨c, j, hround, -, -, hnear⟩ := exists_roundDigits_eq hmany
    rwa [hround]

theorem coefficient_roundDigits_ne_zero (h : d.coefficient ≠ 0) :
    (d.roundDigits 3).coefficient ≠ 0 := by
  rcases le_total d.digitCount 3 with hfew | hmany
  · rwa [roundDigits_eq_self hfew]
  · obtain ⟨c, j, hround, hlower, -⟩ := exists_roundDigits_eq hmany
    rw [hround]
    show c ≠ 0
    omega

/-! ### The place of the first digit -/

theorem digitCount_pos (d : Decimal) : 0 < d.digitCount :=
  List.length_pos_iff.mpr Nat.toDigits_ne_nil

theorem exponent_le_leadingPlace (d : Decimal) : d.exponent ≤ d.leadingPlace := by
  have hpos := d.digitCount_pos
  rw [leadingPlace]
  omega

theorem toRat_lt_ten_zpow (d : Decimal) : d.toRat < 10 ^ (d.leadingPlace + 1) := by
  have hlt : d.coefficient < 10 ^ d.digitCount :=
    not_le.mp (mt (lt_digitCount_iff d.digitCount_pos).mpr (lt_irrefl _))
  have hcast : (d.coefficient : ℚ) < 10 ^ d.digitCount := by exact_mod_cast hlt
  have hplace : d.leadingPlace + 1 = d.digitCount + d.exponent := by
    rw [leadingPlace]
    ring
  rw [toRat, hplace, zpow_add₀ (by norm_num), zpow_natCast]
  exact mul_lt_mul_of_pos_right hcast (by positivity)

theorem ten_zpow_leadingPlace_le (h : d.coefficient ≠ 0) : 10 ^ d.leadingPlace ≤ d.toRat := by
  obtain ⟨k, hk⟩ := Nat.exists_eq_succ_of_ne_zero d.digitCount_pos.ne'
  have hle : 10 ^ k ≤ d.coefficient := by
    rcases k.eq_zero_or_pos with rfl | hpos
    · exact Nat.one_le_iff_ne_zero.mpr h
    · exact (lt_digitCount_iff hpos).mp (by omega)
  have hcast : (10 : ℚ) ^ k ≤ d.coefficient := by exact_mod_cast hle
  have hplace : d.leadingPlace = k + d.exponent := by
    rw [leadingPlace, hk]
    push_cast
    ring
  rw [toRat, hplace, zpow_add₀ (by norm_num), zpow_natCast]
  exact mul_le_mul_of_nonneg_right hcast (by positivity)

/-- A number is at least half of the place of its first digit after rounding, and less than twice
the next. -/
theorem roundDigits_bounds (h : d.coefficient ≠ 0) :
    10 ^ (d.roundDigits 3).leadingPlace / 2 ≤ d.toRat ∧
      d.toRat < 2 * 10 ^ ((d.roundDigits 3).leadingPlace + 1) := by
  have hnear := abs_le.mp d.abs_toRat_sub_roundDigits_le
  have hlower := ten_zpow_leadingPlace_le (coefficient_roundDigits_ne_zero h)
  have hupper := (d.roundDigits 3).toRat_lt_ten_zpow
  have hunit : (10 : ℚ) ^ (d.roundDigits 3).exponent ≤ 10 ^ (d.roundDigits 3).leadingPlace :=
    zpow_le_zpow_right₀ (by norm_num) (d.roundDigits 3).exponent_le_leadingPlace
  rw [zpow_add_one₀ (by norm_num)] at hupper ⊢
  constructor <;> linarith

/-! ### Numbers close to three digits -/

/-- Numbers of three digits that are close to each other end at the same place, or one of them has
three nines. -/
theorem eq_or_eq_add_one_of_near (hage : 100 ≤ a) (hale : a ≤ 999) (hnonneg : 0 ≤ f) (hlt : f < 1)
    (hlower : 100 ≤ c) (hupper : c ≤ 999)
    (hnear : |(a + f) * 10 ^ j - c * 10 ^ i| < 10 ^ i / 20) : i = j ∨ i = j + 1 := by
  have hclose := abs_lt.mp hnear
  have hage' : (100 : ℚ) ≤ a := by exact_mod_cast hage
  have hale' : (a : ℚ) ≤ 999 := by exact_mod_cast hale
  have hlower' : (100 : ℚ) ≤ c := by exact_mod_cast hlower
  have hupper' : (c : ℚ) ≤ 999 := by exact_mod_cast hupper
  have hpowi : (0 : ℚ) < 10 ^ i := by positivity
  have hpowj : (0 : ℚ) < 10 ^ j := by positivity
  have hsmall : (10 : ℚ) ^ i < 10 ^ (j + 2) := by
    rw [zpow_add₀ (by norm_num)]
    have hmost : (a + f) * (10 : ℚ) ^ j ≤ 1000 * 10 ^ j :=
      mul_le_mul_of_nonneg_right (by linarith) hpowj.le
    have hleast : 100 * (10 : ℚ) ^ i ≤ c * 10 ^ i := mul_le_mul_of_nonneg_right hlower' hpowi.le
    norm_num only
    linarith
  have hlarge : (10 : ℚ) ^ j < 10 ^ (i + 1) := by
    rw [zpow_add₀ (by norm_num)]
    have hleast : 100 * (10 : ℚ) ^ j ≤ (a + f) * 10 ^ j :=
      mul_le_mul_of_nonneg_right (by linarith) hpowj.le
    have hmost : c * (10 : ℚ) ^ i ≤ 999 * 10 ^ i := mul_le_mul_of_nonneg_right hupper' hpowi.le
    norm_num only
    linarith
  have hi := (zpow_lt_zpow_iff_right₀ (by norm_num)).mp hsmall
  have hj := (zpow_lt_zpow_iff_right₀ (by norm_num)).mp hlarge
  omega

theorem abs_sub_lt_of_mul_zpow {x y r : ℚ} (h : |x * 10 ^ j - y * 10 ^ j| < r * 10 ^ j) :
    |x - y| < r := by
  have hpow : (0 : ℚ) < 10 ^ j := by positivity
  rw [← sub_mul, abs_mul, abs_of_pos hpow] at h
  exact lt_of_mul_lt_mul_right h hpow.le

/-- At the same place, the part that is cut off decides. -/
theorem eq_or_eq_succ_of_near (hnonneg : 0 ≤ f) (hlt : f < 1)
    (hnear : |(a + f) * 10 ^ j - c * 10 ^ j| < 10 ^ j / 20) :
    c = a ∧ f < 1 / 2 ∨ c = a + 1 ∧ 1 / 2 < f := by
  rw [div_eq_inv_mul] at hnear
  have hclose := abs_lt.mp (abs_sub_lt_of_mul_zpow hnear)
  have hle : a ≤ c := by
    have hcast : (a : ℚ) < c + 1 := by linarith
    exact Nat.lt_succ_iff.mp (by exact_mod_cast hcast)
  have hge : c ≤ a + 1 := by
    have hcast : (c : ℚ) < a + 1 + 1 := by linarith
    exact Nat.lt_succ_iff.mp (by exact_mod_cast hcast)
  obtain rfl | rfl : c = a ∨ c = a + 1 := by omega
  · exact .inl ⟨rfl, by linarith⟩
  · push_cast at hclose
    exact .inr ⟨rfl, by linarith⟩

/-- At the next place, only the carry of three nines is near. -/
theorem nines_of_near (hale : a ≤ 999) (hlt : f < 1) (hlower : 100 ≤ c)
    (hnear : |(a + f) * 10 ^ j - c * 10 ^ (j + 1)| < 10 ^ (j + 1) / 20) :
    a = 999 ∧ c = 100 ∧ 1 / 2 < f := by
  have hscaled : |(a + f) * 10 ^ j - 10 * c * (10 : ℚ) ^ j| < 1 / 2 * 10 ^ j := by
    rw [zpow_add_one₀ (by norm_num)] at hnear
    calc
      _ = |(a + f) * 10 ^ j - c * ((10 : ℚ) ^ j * 10)| := by ring_nf
      _ < _ := hnear
      _ = _ := by ring
  have hclose := abs_lt.mp (abs_sub_lt_of_mul_zpow hscaled)
  have hlower' : (100 : ℚ) ≤ c := by exact_mod_cast hlower
  have hale' : (a : ℚ) ≤ 999 := by exact_mod_cast hale
  have hnines : a = 999 := by
    have hcast : (998 : ℚ) < a := by linarith
    have hgt : 998 < a := by exact_mod_cast hcast
    omega
  have hhundred : c = 100 := by
    have hcast : (c : ℚ) < 101 := by linarith
    have hlt : c < 101 := by exact_mod_cast hcast
    omega
  subst hnines hhundred
  push_cast at hclose
  exact ⟨rfl, rfl, by linarith⟩

/-- A number close to a decimal of three digits is rounded to that decimal. -/
theorem roundDigits_eq_of_near (h : 3 ≤ d.digitCount) (hlower : 100 ≤ c) (hupper : c ≤ 999)
    (hnear : |d.toRat - c * 10 ^ i| < 10 ^ i / 20) : d.roundDigits 3 = ⟨c, i⟩ := by
  obtain ⟨a, j, f, hage, hale, hnonneg, hlt, hvalue, hround⟩ := exists_truncate_eq h
  have hnot : 1 / 2 < f → ¬ (f < 1 / 2 ∨ f = 1 / 2 ∧ a % 2 = 0) := by
    rintro hup (hdown | ⟨htie, -⟩) <;> linarith
  rw [hvalue] at hnear
  rw [hround]
  rcases eq_or_eq_add_one_of_near hage hale hnonneg hlt hlower hupper hnear with rfl | rfl
  · obtain ⟨rfl, hdown⟩ | ⟨rfl, hup⟩ := eq_or_eq_succ_of_near hnonneg hlt hnear
    · rw [if_pos (.inl hdown)]
    · rw [if_neg (hnot hup), if_neg (by omega)]
  · obtain ⟨rfl, rfl, hup⟩ := nines_of_near hale hlt hlower hnear
    rw [if_neg (hnot hup), if_pos rfl]

end Decimal

end PocketCalculator
