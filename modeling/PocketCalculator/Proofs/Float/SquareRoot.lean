import PocketCalculator.Proofs.Float.BelowZero

/-!
# Squares and square roots

The product of a float with itself is never below zero. The square root of what is above zero is
above zero too: halving the exponent leads away from the smallest numbers (`zero_lt_sqrt`).
-/

namespace PocketCalculator

open Float.Model Float.Model.UnpackedFloat

variable {u : UnpackedFloat} {x : Float} {m : ℕ} {e : ℤ}

theorem not_isBeyondZero_mul_self : ¬ IsBeyondZero .negative (UnpackedFloat.mul .binary64 u u) := by
  cases u with
  | notANumber | zero s => exact id
  | infinity s => cases s <;> exact HasSign.not_isBeyondZero rfl
  | finite s m e hm =>
    have hsign : s * s = .positive := by cases s <;> rfl
    rw [UnpackedFloat.mul, hsign]
    exact (hasSign_roundWithAccuracy .positive _ _ _).not_isBeyondZero

theorem not_mul_self_lt_zero (x : Float) : ¬ x * x < 0 := by
  rw [lt_zero_iff]
  exact fun h ↦ not_isBeyondZero_mul_self h.of_stored

/-! ### Roots -/

theorem isNaN_sqrt (h : x.isNaN) : x.sqrt.isNaN := by
  have hnan : x.toModel.unpack = .notANumber := by
    change x.toModel.unpack.isNaN = true at h
    generalize x.toModel.unpack = u at h ⊢
    cases u with
    | notANumber => rfl
    | zero _ | finite _ _ _ _ | infinity _ => cases h
  show (unpack .binary64 (pack .binary64 (UnpackedFloat.sqrt .binary64 x.toModel.unpack))).isNaN
  rw [hnan]
  rfl

/-- Whatever residual bits a mantissa has, they abbreviate some fraction. -/
theorem exists_abbreviates (em : ExtendedMantissa) :
    ∃ y : ℚ, em.mantissa ≤ y ∧ Abbreviates em y := by
  refine ⟨em.mantissa + (if em.roundBit then 1 / 2 else 0) + (if em.stickyBit then 1 / 4 else 0),
    ?_, _, ?_, ?_, ?_, rfl⟩
  · rw [add_assoc]
    apply le_add_of_nonneg_right
    split <;> split <;> norm_num
  · split <;> norm_num
  · split <;> norm_num
  · split
    · next h => simp [h]
    · next h => simp [h]

/-- Where the last bit of a root is: at half the exponent, or at the end of the range. -/
theorem targetExponent_half : Format.binary64.targetExponent ((totalExponent m e + 1).ediv 2) =
    max ((m.log2 + e) / 2 - 52) (-1074) := by
  have hexponent : (totalExponent m e + 1).ediv 2 = (m.log2 + e) / 2 + 1 := by
    show (m.log2 + 1 + e + 1) / 2 = (m.log2 + e) / 2 + 1
    omega
  have hbits : ((Format.binary64.mantissaBits : ℕ) : ℤ) = 53 := rfl
  have hleast : Format.binary64.minExponent = -1074 := rfl
  rw [Format.targetExponent, hexponent, hbits, hleast]
  congr 1
  ring

theorem two_pow_le_sqrt {j k : ℕ} (hm : 0 < m) (h : j + j ≤ m.log2 + k) :
    2 ^ j ≤ (m * 2 ^ k).sqrt := by
  rw [Nat.le_sqrt, ← pow_add]
  calc
    2 ^ (j + j) ≤ 2 ^ (m.log2 + k) := Nat.pow_le_pow_right (by norm_num) h
    _ = 2 ^ m.log2 * 2 ^ k := pow_add 2 _ _
    _ ≤ m * 2 ^ k := Nat.mul_le_mul_right _ (Nat.log2_self_le hm.ne')

/-- A root is computed with enough bits for rounding, and it is not too small for a float. -/
theorem exists_sqrt_eq_nearestDatum (hm : 0 < m) (he : -1074 ≤ e) :
    ∃ q : ℚ, 2 ^ (-1074 : ℤ) ≤ q ∧
      UnpackedFloat.sqrt .binary64 (.finite .positive m e hm) = nearestDatum .positive q := by
  -- The root is at least `2 ^ half`, and its last computed bit stands at `target`.
  obtain ⟨half, hhalf⟩ : ∃ half : ℤ, half = (m.log2 + e) / 2 := ⟨_, rfl⟩
  obtain ⟨target, htarget⟩ : ∃ target, target = min (e.ediv 2)
      (Format.binary64.targetExponent ((totalExponent m e + 1).ediv 2)) := ⟨_, rfl⟩
  have hle : target ≤ half := by
    have hdiv : target ≤ e / 2 := htarget.le.trans (min_le_left _ _)
    omega
  obtain ⟨j, hj⟩ := Int.le.dest hle
  obtain ⟨k, hk⟩ : ∃ k : ℕ, k = (e - 2 * target).toNat := ⟨_, rfl⟩
  have hroot : 2 ^ j ≤ (m * 2 ^ k).sqrt := two_pow_le_sqrt hm (by omega)
  simp only [UnpackedFloat.sqrt, sqrtCore, ← htarget, ← hk, Nat.shiftLeft_eq]
  -- Whether the root is exact decides on its residual bits only.
  generalize (if m * 2 ^ k - _ = 0 then Accuracy.exact else _) = accuracy
  obtain ⟨y, hy, habbreviates⟩ :=
    exists_abbreviates (.ofMantissaAndAccuracy (m * 2 ^ k).sqrt accuracy)
  rw [mantissa_ofMantissaAndAccuracy] at hy
  have hpow : (0 : ℚ) < 2 ^ target := by positivity
  have hlower : (2 : ℚ) ^ half ≤ y * 2 ^ target := by
    rw [← hj, add_comm, zpow_add₀ (by norm_num), zpow_natCast]
    apply mul_le_mul_of_nonneg_right _ hpow.le
    exact le_trans (by exact_mod_cast hroot) hy
  have hpos : 0 < y * 2 ^ target := lt_of_lt_of_le (by positivity) hlower
  refine ⟨y * 2 ^ target, ?_, ?_⟩
  · exact (zpow_le_zpow_right₀ (by norm_num) (by omega)).trans hlower
  · apply roundWithAccuracy_eq_nearestDatum hpos
    · rwa [mul_div_cancel_right₀ _ hpow.ne']
    · have hlast : half - 52 ≤ lastPlace (y * 2 ^ target) := by
        apply le_lastPlace_of_le_abs hpos.ne'
        rwa [abs_of_pos hpos, sub_add_cancel]
      calc
        target ≤ max (half - 52) (-1074) := by
          rw [hhalf, ← targetExponent_half, htarget]
          exact min_le_right _ _
        _ ≤ lastPlace (y * 2 ^ target) := max_le hlast (neg_1074_le_lastPlace _)

theorem zero_lt_sqrt (h : 0 < x) : 0 < x.sqrt := by
  rw [zero_lt_iff] at h
  cases hu : x.toModel.unpack with
  | zero s | notANumber =>
    rw [hu] at h
    cases h
  | infinity s =>
    rw [hu] at h
    obtain rfl : s = .positive := h
    rw [zero_lt_iff]
    show IsBeyondZero .positive
      (unpack .binary64 (pack .binary64 (UnpackedFloat.sqrt .binary64 x.toModel.unpack)))
    rw [hu]
    rfl
  | finite s m e hm =>
    rw [hu] at h
    obtain rfl : s = .positive := h
    obtain ⟨q, hq, hsqrt⟩ := exists_sqrt_eq_nearestDatum hm (isCanonical_of_unpack hu).le_exponent
    have hvalue : exactValue? x.sqrt = nearest? q := by
      show storedValue? (UnpackedFloat.sqrt .binary64 x.toModel.unpack) = nearest? q
      rw [hu, hsqrt, storedValue?_nearestDatum (lt_of_lt_of_le (by positivity) hq), signed]
    have hsign : HasSign .positive x.sqrt.toModel.unpack := by
      apply HasSign.stored (u := UnpackedFloat.sqrt .binary64 x.toModel.unpack)
      rw [hu]
      exact hasSign_roundWithAccuracy _ _ _ _
    apply zero_lt_of_nonneg (nonneg_of_hasSign hsign).2
    rw [hvalue]
    intro hzero
    exact (zero_lt_nearest hq).ne' (nearest_eq_of_nearest? hzero)

theorem exactValue?_sqrt_of_eq_zero (h : exactValue? x = some 0) :
    exactValue? x.sqrt = some 0 := by
  have hdenotes := exactValue?_eq_some_iff.mp h
  show storedValue? (UnpackedFloat.sqrt .binary64 x.toModel.unpack) = some 0
  obtain ⟨s, hs⟩ := hdenotes.exists_eq_zero
  rw [hs]
  exact (Denotes.zero s).storedValue?_eq

theorem sqrt_nonneg (h : 0 ≤ x) : 0 ≤ x.sqrt := by
  by_cases hzero : exactValue? x = some 0
  · rw [le_iff_of_exactValue? exactValue?_zero (exactValue?_sqrt_of_eq_zero hzero)]
  · exact (nonneg_of_hasSign (zero_lt_iff.mp (zero_lt_sqrt (zero_lt_of_nonneg h hzero))).hasSign).2

/-- The root of what is not below zero is zero for a zero only. -/
theorem sqrt_beq_zero_iff (h : ¬ x < 0) : x.sqrt == 0 ↔ x == 0 := by
  rw [beq_zero_iff, beq_zero_iff]
  refine ⟨fun hroot ↦ ?_, exactValue?_sqrt_of_eq_zero⟩
  by_contra hne
  rcases not_lt_zero_iff.mp h with hnan | hnonneg
  · exact not_isNaN_of_exactValue? hroot (isNaN_sqrt hnan)
  · exact exactValue?_ne_of_zero_lt (zero_lt_sqrt (zero_lt_of_nonneg hnonneg hne)) hroot

/-! ### Two powers -/

/-- The powers with the exponents two and one half: products and square roots. -/
def squareOrRoot (base exponent : Float) : Float :=
  if exponent == 2 then base * base else base.sqrt

theorem squareOrRoot_two (x : Float) : squareOrRoot x 2 = x * x := by
  rw [squareOrRoot, if_pos]
  rfl

theorem squareOrRoot_half (x : Float) : squareOrRoot x 0.5 = x.sqrt := by
  rw [squareOrRoot, if_neg]
  decide +kernel

end PocketCalculator
