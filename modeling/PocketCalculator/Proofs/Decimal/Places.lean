import PocketCalculator.Proofs.Readout

/-!
# Rounding to decimal places

A fraction is multiplied by the number of units in its last place, rounded to a whole number and
divided again. Each of the three steps yields a float, so that two of them round to the nearest
float besides (`toPlaces`, `exactValue?_roundToPlaces`).
-/

namespace PocketCalculator

open Float.Model.UnpackedFloat

variable {p q : ℚ} {x v : Float}

/-! ### Rounding to an integer, half away from zero -/

/-- The nearest integer. A half goes away from zero. -/
def roundHalfAway (q : ℚ) : ℤ :=
  if q < 0 then -⌊-q + 1 / 2⌋ else ⌊q + 1 / 2⌋

theorem roundHalfAway_of_nonneg (h : 0 ≤ q) : roundHalfAway q = ⌊q + 1 / 2⌋ :=
  if_neg (not_lt.mpr h)

theorem roundHalfAway_nonneg (h : 0 ≤ q) : 0 ≤ roundHalfAway q := by
  rw [roundHalfAway_of_nonneg h]
  exact Int.floor_nonneg.mpr (by linarith)

@[simp] theorem roundHalfAway_neg (q : ℚ) : roundHalfAway (-q) = -roundHalfAway q := by
  rcases lt_trichotomy q 0 with hq | rfl | hq
  · rw [roundHalfAway_of_nonneg (neg_nonneg.mpr hq.le), roundHalfAway, if_pos hq, neg_neg]
  · rw [neg_zero, roundHalfAway_of_nonneg le_rfl, zero_add]
    norm_num
  · rw [roundHalfAway_of_nonneg hq.le, roundHalfAway, if_pos (neg_neg_of_pos hq), neg_neg]

theorem roundHalfAway_mono : Monotone roundHalfAway := by
  have hnonneg : ∀ p q, 0 ≤ p → p ≤ q → roundHalfAway p ≤ roundHalfAway q := by
    intro p q hp h
    rw [roundHalfAway_of_nonneg hp, roundHalfAway_of_nonneg (hp.trans h)]
    exact Int.floor_mono (by linarith)
  intro p q h
  rcases le_total 0 p with hp | hp
  · exact hnonneg p q hp h
  · rcases le_total 0 q with hq | hq
    · -- The numbers lie on both sides of zero, and so do their roundings.
      have hneg := roundHalfAway_nonneg (neg_nonneg.mpr hp)
      rw [roundHalfAway_neg] at hneg
      exact (neg_nonneg.mp hneg).trans (roundHalfAway_nonneg hq)
    · have hneg := hnonneg (-q) (-p) (neg_nonneg.mpr hq) (neg_le_neg h)
      rw [roundHalfAway_neg, roundHalfAway_neg] at hneg
      exact neg_le_neg_iff.mp hneg

theorem roundHalfAway_signed (s : Sign) (h : 0 ≤ q) :
    roundHalfAway (signed s q) = s.apply ⌊q + 1 / 2⌋ := by
  cases s
  · show roundHalfAway (-q) = -⌊q + 1 / 2⌋
    rw [roundHalfAway_neg, roundHalfAway_of_nonneg h]
  · exact roundHalfAway_of_nonneg h

theorem abs_roundHalfAway (q : ℚ) : |roundHalfAway q| = roundHalfAway |q| := by
  rcases le_total 0 q with hq | hq
  · rw [abs_of_nonneg hq, abs_of_nonneg (roundHalfAway_nonneg hq)]
  · have hneg := roundHalfAway_nonneg (neg_nonneg.mpr hq)
    rw [roundHalfAway_neg] at hneg
    rw [abs_of_nonpos hq, roundHalfAway_neg, abs_of_nonpos (neg_nonneg.mp hneg)]

theorem roundHalfAway_intCast (n : ℤ) : roundHalfAway n = n := by
  have hnonneg : ∀ m : ℤ, 0 ≤ m → roundHalfAway m = m := by
    intro m hm
    rw [roundHalfAway_of_nonneg (by exact_mod_cast hm), Int.floor_intCast_add]
    norm_num
  rcases le_total 0 n with hn | hn
  · exact hnonneg n hn
  · have hneg := hnonneg (-n) (neg_nonneg.mpr hn)
    rw [Int.cast_neg, roundHalfAway_neg] at hneg
    exact neg_injective hneg

theorem abs_roundHalfAway_le {n : ℤ} (h : |q| ≤ n) : |roundHalfAway q| ≤ n := by
  rw [abs_roundHalfAway, roundHalfAway_of_nonneg (abs_nonneg q)]
  apply Int.le_of_lt_add_one
  apply Int.floor_lt.mpr
  push_cast
  linarith

/-- Rounding a float to an integer yields a float. -/
theorem representable_roundHalfAway (h : Representable q) : Representable (roundHalfAway q) := by
  obtain ⟨m, e, hlt, hleast, hmost, hvalue⟩ := h
  rcases le_or_gt 0 e with he | he
  · -- Without digits after the point, nothing is rounded.
    obtain ⟨k, rfl⟩ := Int.eq_ofNat_of_zero_le he
    have hinteger : |q| = ((m * 2 ^ k : ℤ) : ℚ) := by
      rw [hvalue, zpow_natCast]
      push_cast
      rfl
    refine ⟨m, k, hlt, hleast, hmost, ?_⟩
    rw [← Int.cast_abs, abs_roundHalfAway, hinteger, roundHalfAway_intCast, ← hinteger, hvalue]
  · apply representable_intCast
    have hbound : |q| ≤ ((2 ^ 52 : ℤ) : ℚ) := by
      rw [hvalue]
      calc
        (m : ℚ) * 2 ^ e ≤ 2 ^ 53 * 2 ^ (-1 : ℤ) := by
          apply mul_le_mul
          · exact_mod_cast hlt.le
          · exact zpow_le_zpow_right₀ (by norm_num) (by omega)
          · positivity
          · positivity
        _ = ((2 ^ 52 : ℤ) : ℚ) := by norm_num
    have := abs_le.mp (abs_roundHalfAway_le hbound)
    omega

theorem Decimal.round_eq (d : Decimal) : (d.round : ℤ) = ⌊d.toRat + 1 / 2⌋ := by
  have hunit : (d.unit : ℚ) ≠ 0 := by
    exact_mod_cast d.unit_pos.ne'
  have hquotient : d.toRat + 1 / 2 = ((2 * d.scaled + d.unit : ℕ) : ℚ) / (2 * d.unit : ℕ) := by
    rw [toRat_eq_div]
    push_cast
    field_simp
  rw [hquotient, Rat.floor_natCast_div_natCast, Decimal.round]
  push_cast
  rfl

theorem exactValue?_roundToWhole (h : exactValue? x = some q) :
    exactValue? (roundToWhole x) = some (roundHalfAway q : ℚ) := by
  have hrepresentable := representable_roundHalfAway (representable_of_exactValue? h)
  obtain ⟨s, d, hd, rfl⟩ := exists_ofFloat_eq h
  have hmagnitude : exactValue? (Float.ofNat d.round) = nearest? d.round :=
    exactValue?_ofNat_eq d.round
  rw [roundHalfAway_signed s d.toRat_nonneg, ← d.round_eq] at hrepresentable ⊢
  rw [← nearest?_of_representable hrepresentable, roundToWhole, hd, cast_apply, Int.cast_natCast]
  cases s with
  | negative =>
    show exactValue? (-Float.ofNat d.round) = nearest? (-(d.round : ℚ))
    rw [exactValue?_neg, hmagnitude, nearest?_neg]
  | positive => exact hmagnitude

/-! ### Rounding to the places of a fraction -/

/-- The number with seven decimal places that a number is rounded to, as floats have it. -/
def toPlaces (q : ℚ) : ℚ :=
  nearest (roundHalfAway (nearest (q * 10 ^ 7)) / 10 ^ 7)

@[simp] theorem toPlaces_neg (q : ℚ) : toPlaces (-q) = -toPlaces q := by
  rw [toPlaces, neg_mul, nearest_neg, roundHalfAway_neg, Int.cast_neg, neg_div, nearest_neg,
    toPlaces]

theorem toPlaces_mono : Monotone toPlaces := by
  intro p q h
  have hscaled : nearest (p * 10 ^ 7) ≤ nearest (q * 10 ^ 7) :=
    nearest_mono (mul_le_mul_of_nonneg_right h (by positivity))
  have hunits : (roundHalfAway (nearest (p * 10 ^ 7)) : ℚ) ≤ roundHalfAway (nearest (q * 10 ^ 7)) :=
    Int.cast_mono (roundHalfAway_mono hscaled)
  exact nearest_mono (div_le_div_of_nonneg_right hunits (by positivity))

/-- An integer within the limit of plain readouts is a number of units with few enough digits, so
that no step rounds. -/
theorem toPlaces_intCast {n : ℤ} (h : n.natAbs ≤ 10 ^ 10) : toPlaces n = n := by
  have hunits : (n : ℚ) * 10 ^ 7 = (n * 5 ^ 7 : ℤ) * 2 ^ (7 : ℤ) := by
    push_cast
    ring
  have hbound : |n * 5 ^ 7| ≤ 2 ^ 53 := abs_le.mpr (by omega)
  have hscaled : nearest ((n : ℚ) * 10 ^ 7) = (n * 10 ^ 7 : ℤ) := by
    rw [hunits, nearest_eq_self_of_abs_le hbound (by norm_num), ← hunits]
    push_cast
    rfl
  rw [toPlaces, hscaled, roundHalfAway_intCast, Int.cast_mul, Int.cast_pow, Int.cast_ofNat,
    mul_div_cancel_right₀ _ (by positivity)]
  exact nearest_of_representable (representable_intCast (by omega))

namespace Readout

theorem exactValue?_unitsPerOne : exactValue? unitsPerOne = some (10 ^ 7) := by
  have hdata : unitsPerOne.toModel.unpack =
      .finite .positive (10 ^ 7 * 2 ^ 29) (-29) (by decide) := by
    rfl
  rw [exactValue?, hdata, unpackedValue?, signed]
  norm_num

theorem representable_ten_pow {k : ℕ} (hk : k ≤ 22) : Representable (10 ^ k) :=
  representable_of_exactValue? (exactValue?_powerOfTen ⟨k, by omega⟩)

theorem abs_nearest_le {k : ℕ} (hk : k ≤ 22) (h : |q| ≤ 10 ^ k) : |nearest q| ≤ 10 ^ k := by
  rw [abs_nearest, ← nearest_of_representable (representable_ten_pow hk)]
  exact nearest_mono h

variable (hlimit : |q| ≤ 10 ^ 10)
include hlimit

theorem abs_mul_unitsPerOne_le : |q * 10 ^ 7| ≤ 10 ^ 17 := by
  rw [abs_mul, abs_of_pos (by positivity : (0 : ℚ) < 10 ^ 7)]
  linarith

theorem abs_units_div_le : |(roundHalfAway (nearest (q * 10 ^ 7)) : ℚ) / 10 ^ 7| ≤ 10 ^ 10 := by
  have hscaled := abs_nearest_le (by norm_num) (abs_mul_unitsPerOne_le hlimit)
  have hunits : |roundHalfAway (nearest (q * 10 ^ 7))| ≤ 10 ^ 17 := by
    apply abs_roundHalfAway_le
    exact_mod_cast hscaled
  have hcast : |(roundHalfAway (nearest (q * 10 ^ 7)) : ℚ)| ≤ 10 ^ 17 := by
    exact_mod_cast hunits
  rw [abs_div, abs_of_pos (by positivity : (0 : ℚ) < 10 ^ 7), div_le_iff₀ (by positivity)]
  linarith

theorem abs_toPlaces_le : |toPlaces q| ≤ 10 ^ 10 :=
  abs_nearest_le (by norm_num) (abs_units_div_le hlimit)

/-- Within the limit of plain readouts nothing overflows. -/
theorem exactValue?_roundToPlaces (h : exactValue? v = some q) :
    exactValue? (roundToPlaces v) = some (toPlaces q) := by
  have hscaled : exactValue? (v * unitsPerOne) = some (nearest (q * 10 ^ 7)) := by
    rw [exactValue?_mul_eq h exactValue?_unitsPerOne]
    exact nearest?_of_abs_le (nearest?_of_representable (representable_ten_pow (by norm_num)))
      (abs_mul_unitsPerOne_le hlimit)
  have hrounded : exactValue? (roundToWhole (v * unitsPerOne) / unitsPerOne) =
      some (toPlaces q) := by
    rw [exactValue?_div_eq (exactValue?_roundToWhole hscaled) exactValue?_unitsPerOne
      (by norm_num)]
    exact nearest?_of_abs_le (nearest?_of_representable (representable_ten_pow (by norm_num)))
      (abs_units_div_le hlimit)
  simp only [roundToPlaces]
  split
  · next hzero =>
    rw [exactValue?_zero, (beq_iff_of_exactValue? hrounded exactValue?_zero).mp hzero]
  · exact hrounded

omit hlimit

/-- What is rounded to zero loses its sign. -/
theorem roundToPlaces_eq_zero (h : roundToPlaces v == 0) : roundToPlaces v = 0 := by
  simp only [roundToPlaces] at h ⊢
  split
  · rfl
  · next hnonzero =>
    rw [if_neg hnonzero] at h
    exact absurd h hnonzero

end Readout

end PocketCalculator
