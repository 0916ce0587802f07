import PocketCalculator.Proofs.Float.Order
import PocketCalculator.Proofs.Float.Scientific

/-!
# Signs of floats

Infinities have a sign as well as numbers, and the value of a float does not tell it. Products and
quotients of finite numbers are rounded to a datum with the sign of the exact result
(`hasSign_roundWithAccuracy`), and storing keeps the sign (`HasSign.stored`). So what is computed
without a minus is at least zero, if only as infinity (`nonneg_of_hasSign`), and no positive factor
leads back from infinity (`infinity_mul`).
-/

namespace PocketCalculator

open Float.Model Float.Model.UnpackedFloat

variable {s : Sign} {u : UnpackedFloat} {x y : Float} {q : ℚ}

def HasSign (s : Sign) : UnpackedFloat → Prop
  | .zero t | .finite t _ _ _ | .infinity t => t = s
  | .notANumber => False

theorem hasSign_roundWithAccuracy (s : Sign) (m : ℕ) (e : ℤ) (accuracy : Accuracy) :
    HasSign s (roundWithAccuracy .binary64 s m e accuracy) := by
  simp only [roundWithAccuracy]
  split <;> rfl

theorem hasSign_unpack_packComponents {exponent : BitVec 11} (h : exponent ≠ -1#11) (s : Sign)
    (mantissa : BitVec 52) :
    HasSign s (unpack .binary64 (packComponents .binary64 s exponent mantissa)) := by
  simp only [Float.Model.UnpackedFloat.unpack, unpackMantissa_packComponents,
    unpackExponent_packComponents, unpackSign_packComponents, Sign.ofBitVec_toBitVec]
  rw [if_neg h]
  split
  · split <;> rfl
  · rfl

theorem HasSign.stored (h : HasSign s u) : HasSign s (unpack .binary64 (pack .binary64 u)) := by
  cases u with
  | notANumber => cases h
  | zero t =>
    rw [UnpackedFloat.pack, unpack_packedZero]
    exact h
  | infinity t =>
    obtain rfl : t = s := h
    cases t <;> rfl
  | finite t m e hm =>
    obtain rfl : t = s := h
    simp only [UnpackedFloat.pack]
    generalize (e + (Format.binary64.exponentBias : ℕ) +
      (Format.binary64.mantissaBitsWithoutImplicit : ℕ)).toNat = biased
    split
    · cases t <;> rfl
    · next hfits =>
      have hbelow : biased + 1 < 2 ^ 11 := not_le.mp hfits
      split
      · apply hasSign_unpack_packComponents
        intro heq
        have htoNat : (BitVec.ofNat 11 biased).toNat = 2047 := congrArg BitVec.toNat heq
        rw [BitVec.toNat_ofNat] at htoNat
        omega
      · exact hasSign_unpack_packComponents (by decide) t _

/-- What has no minus and is not undefined is at least zero. -/
theorem nonneg_of_hasSign (h : HasSign .positive x.toModel.unpack) : ¬ x.isNaN ∧ 0 ≤ x := by
  show ¬ x.toModel.unpack.isNaN = true ∧ decide ((UnpackedFloat.compare (0 : Float).toModel.unpack
    x.toModel.unpack).any Ordering.isLE = true) = true
  rw [unpack_zero]
  generalize x.toModel.unpack = u at h
  cases u with
  | notANumber => cases h
  | zero t | finite t m e hm | infinity t =>
    obtain rfl : t = .positive := h
    exact ⟨nofun, rfl⟩

theorem not_isNaN_of_exactValue? (h : exactValue? x = some q) : ¬ x.isNaN := by
  have hdenotes := exactValue?_eq_some_iff.mp h
  show ¬ x.toModel.unpack.isNaN = true
  generalize x.toModel.unpack = u at hdenotes
  cases hdenotes <;> exact nofun

/-! ### Decimal literals -/

theorem hasSign_ofScientific (n : ℕ) (e : ℤ) :
    HasSign .positive (UnpackedFloat.ofScientific .binary64 n e) := by
  rw [UnpackedFloat.ofScientific]
  split
  · rfl
  · split
    · rfl
    · split
      · rfl
      · split
        · exact hasSign_roundWithAccuracy _ _ _ _
        · exact hasSign_roundWithAccuracy _ _ _ _

/-- Factors that are floats do not overflow. -/
theorem exists_nearest?_eq_some {n k : ℕ} (hn : n < 2 ^ 53) (hk : k ≤ 22) (negative : Bool) :
    ∃ q, nearest? (n * 10 ^ (if negative then -(k : ℤ) else k)) = some q := by
  have hbound : nearest? (2 ^ 127) = some (2 ^ 127) :=
    nearest?_of_representable ⟨1, 127, by norm_num, by norm_num, by norm_num, by norm_num⟩
  refine ⟨_, nearest?_of_abs_le hbound ?_⟩
  rw [abs_of_nonneg (by positivity)]
  calc
    (n : ℚ) * 10 ^ (if negative then -(k : ℤ) else k) ≤ 2 ^ 53 * 10 ^ (22 : ℤ) := by
      apply mul_le_mul
      · exact_mod_cast hn.le
      · exact zpow_le_zpow_right₀ (by norm_num) (by split <;> omega)
      · positivity
      · positivity
    _ ≤ 2 ^ 127 := by norm_num

/-- A decimal literal, be it too large for a number, is at least zero. -/
theorem nonneg_ofScientific (n : ℕ) (negative : Bool) (k : ℕ) :
    ¬ (Float.ofScientific n negative k).isNaN ∧ 0 ≤ Float.ofScientific n negative k := by
  have hvalue := exactValue?_ofScientific n negative k
  cases hnearest : nearest? (n * 10 ^ (if negative then -(k : ℤ) else k)) with
  | some q =>
    rw [hnearest] at hvalue
    refine ⟨not_isNaN_of_exactValue? hvalue, ?_⟩
    rw [le_iff_of_exactValue? exactValue?_zero hvalue, ← nearest_eq_of_nearest? hnearest]
    exact nearest_nonneg (by positivity)
  | none =>
    apply nonneg_of_hasSign
    rw [Float.ofScientific]
    split
    · next hsmall =>
      obtain ⟨q, hq⟩ := exists_nearest?_eq_some hsmall.1 hsmall.2 negative
      rw [hnearest] at hq
      cases hq
    · exact (hasSign_ofScientific n _).stored

/-! ### Infinity -/

theorem eq_of_unpack_eq (h : x.toModel.unpack = y.toModel.unpack) : x = y := by
  obtain ⟨⟨a, ha⟩⟩ := x
  obtain ⟨⟨b, hb⟩⟩ := y
  have hbits : a = b := by
    apply UInt64.toBitVec_inj.mp
    rw [← pack_unpack_of_valid ha, ← pack_unpack_of_valid hb]
    exact congrArg _ h
  cases hbits
  rfl

theorem unpack_infinity : (1 / 0 : Float).toModel.unpack = .infinity .positive := by
  rfl

/-- There is one infinity without a minus. -/
theorem eq_infinity_of_not_isFinite (h : HasSign .positive x.toModel.unpack)
    (hinfinite : x.isFinite = false) : x = 1 / 0 := by
  apply eq_of_unpack_eq
  rw [unpack_infinity]
  change x.toModel.unpack.isFinite = false at hinfinite
  generalize x.toModel.unpack = u at h hinfinite ⊢
  cases u with
  | infinity t => exact congrArg _ h
  | notANumber => cases h
  | zero t | finite t m e hm => cases hinfinite

/-! ### Positive factors -/

theorem exists_unpack_eq_of_pos (hx : exactValue? x = some q) (hq : 0 < q) :
    ∃ m e hm, x.toModel.unpack = .finite .positive m e hm := by
  have hdenotes := exactValue?_eq_some_iff.mp hx
  generalize x.toModel.unpack = u at hdenotes
  cases hdenotes with
  | zero s => exact absurd hq (lt_irrefl 0)
  | @finite s m e hm h =>
    cases s with
    | positive => exact ⟨m, e, hm, rfl⟩
    | negative =>
      have hpos : (0 : ℚ) < m * 2 ^ e := by positivity
      exact absurd hq (neg_neg_of_pos hpos).not_gt

theorem hasSign_mul (hx : HasSign .positive x.toModel.unpack)
    (hy : exactValue? y = some q) (hq : 0 < q) : HasSign .positive (x * y).toModel.unpack := by
  obtain ⟨m, e, hm, hunpack⟩ := exists_unpack_eq_of_pos hy hq
  apply HasSign.stored (u := UnpackedFloat.mul .binary64 x.toModel.unpack y.toModel.unpack)
  rw [hunpack]
  generalize x.toModel.unpack = u at hx
  cases u with
  | notANumber => cases hx
  | zero t | infinity t =>
    obtain rfl : t = .positive := hx
    rw [UnpackedFloat.mul]
    rfl
  | finite t n f hn =>
    obtain rfl : t = .positive := hx
    rw [UnpackedFloat.mul]
    exact hasSign_roundWithAccuracy _ _ _ _

/-- Infinity stays when it is multiplied by a positive number. -/
theorem infinity_mul (hx : exactValue? x = some q) (hq : 0 < q) :
    1 / 0 * x = 1 / 0 := by
  obtain ⟨m, e, hm, hunpack⟩ := exists_unpack_eq_of_pos hx hq
  have hproduct : UnpackedFloat.mul .binary64 (.infinity .positive) (.finite .positive m e hm) =
      .infinity .positive := by
    rw [UnpackedFloat.mul]
    rfl
  apply eq_of_unpack_eq
  show unpack .binary64 (pack .binary64 (UnpackedFloat.mul .binary64
    (1 / 0 : Float).toModel.unpack x.toModel.unpack)) = _
  rw [unpack_infinity, hunpack, hproduct]
  rfl

end PocketCalculator
