import PocketCalculator.Decimal.Extended
import PocketCalculator.Proofs.Float.Order
import PocketCalculator.Proofs.Float.Scientific

/-!
# Decimals as rational numbers

The decimal expansion of a float has the value of the float (`exists_ofFloat_eq`). So a float is
called whole exactly when its value is an integer, and its whole part is then that integer
(`isWholeNumber_iff`, `wholePart_eq`).
-/

namespace PocketCalculator

open Float.Model Float.Model.UnpackedFloat

namespace Decimal

def toRat (d : Decimal) : ℚ :=
  d.coefficient * 10 ^ d.exponent

theorem unit_pos (d : Decimal) : 0 < d.unit :=
  Nat.pow_pos (by norm_num)

theorem toRat_eq_div (d : Decimal) : d.toRat = d.scaled / d.unit := by
  have hunit : (d.unit : ℚ) ≠ 0 := by
    exact_mod_cast d.unit_pos.ne'
  rw [eq_div_iff hunit, toRat, scaled, unit, Nat.pow_eq, Nat.pow_eq]
  push_cast
  rw [mul_assoc, ← zpow_natCast, ← zpow_natCast, ← zpow_add₀ (by norm_num)]
  congr 2
  omega

theorem toRat_nonneg (d : Decimal) : 0 ≤ d.toRat := by
  rw [toRat]
  positivity

theorem isWhole_iff {d : Decimal} : d.IsWhole ↔ ∃ n : ℕ, d.toRat = n := by
  have hunit : (d.unit : ℚ) ≠ 0 := by
    exact_mod_cast d.unit_pos.ne'
  rw [IsWhole, ← Nat.dvd_iff_mod_eq_zero]
  constructor
  · rintro ⟨n, hn⟩
    refine ⟨n, ?_⟩
    rw [toRat_eq_div, hn, Nat.cast_mul, mul_div_cancel_left₀ _ hunit]
  · rintro ⟨n, hn⟩
    refine ⟨n, ?_⟩
    rw [toRat_eq_div, div_eq_iff hunit] at hn
    rw [mul_comm]
    exact_mod_cast hn

theorem floor_eq (d : Decimal) : d.floor = ⌊d.toRat⌋₊ := by
  rw [toRat_eq_div, Nat.floor_div_eq_div, floor]

theorem toRat_ofBinary (m : ℕ) (e : ℤ) : (ofBinary m e).toRat = m * 2 ^ e := by
  rw [ofBinary]
  split
  · next he =>
    obtain ⟨k, rfl⟩ : ∃ k : ℕ, e = -k := ⟨e.natAbs, by omega⟩
    have hten : (10 : ℚ) ^ (-(k : ℤ)) = 2 ^ (-(k : ℤ)) * 5 ^ (-(k : ℤ)) := by
      rw [← mul_zpow]
      norm_num
    have hfive : (5 : ℚ) ^ k * 5 ^ (-(k : ℤ)) = 1 := by
      rw [zpow_neg, zpow_natCast, mul_inv_cancel₀ (by positivity)]
    rw [toRat, Int.natAbs_neg, Int.natAbs_natCast, Nat.pow_eq]
    push_cast
    rw [hten]
    linear_combination (m : ℚ) * 2 ^ (-(k : ℤ)) * hfive
  · next he =>
    obtain ⟨k, rfl⟩ : ∃ k : ℕ, e = k := ⟨e.natAbs, by omega⟩
    rw [toRat, Int.natAbs_natCast, Nat.pow_eq, zpow_zero, mul_one, zpow_natCast]
    push_cast
    rfl

theorem exponent_ofBinary_nonpos (m : ℕ) (e : ℤ) : (ofBinary m e).exponent ≤ 0 := by
  rw [ofBinary]
  split
  · next he => exact he.le
  · exact le_rfl

theorem coefficient_ofBinary_ne_zero {m : ℕ} (hm : 0 < m) (e : ℤ) :
    (ofBinary m e).coefficient ≠ 0 := by
  rw [ofBinary]
  split
  · exact Nat.mul_ne_zero hm.ne' (Nat.pow_pos (by norm_num)).ne'
  · exact Nat.mul_ne_zero hm.ne' (Nat.pow_pos (by norm_num)).ne'

/-- A decimal is turned into the nearest float. -/
theorem exactValue?_toFloat (d : Decimal) : exactValue? d.toFloat = nearest? d.toRat := by
  rw [toFloat, exactValue?_ofScientific, toRat]
  have hexponent :
      (if decide (d.exponent < 0) then -(d.exponent.natAbs : ℤ) else d.exponent.natAbs) =
      d.exponent := by
    by_cases h : d.exponent < 0
    · rw [if_pos (decide_eq_true h)]
      omega
    · rw [if_neg (by simpa using h)]
      omega
  rw [hexponent]

end Decimal

variable {x : Float} {q : ℚ}

theorem exists_ofFloat_eq (h : exactValue? x = some q) :
    ∃ s d, ExtendedDecimal.ofFloat x = .finite (s == .negative) d ∧ q = signed s d.toRat := by
  have hvalue := exactValue?_eq_some_iff.mp h
  rw [ExtendedDecimal.ofFloat]
  generalize x.toModel.unpack = u at hvalue ⊢
  cases hvalue with
  | zero s =>
    refine ⟨s, ⟨0, 0⟩, rfl, ?_⟩
    rw [Decimal.toRat, Nat.cast_zero, zero_mul]
    cases s
    · exact neg_zero.symm
    · rfl
  | @finite s m e hm hu => exact ⟨s, .ofBinary m e, rfl, by rw [Decimal.toRat_ofBinary]⟩

theorem exponent_nonpos_of_ofFloat {negative : Bool} {d : Decimal}
    (h : ExtendedDecimal.ofFloat x = .finite negative d) : d.exponent ≤ 0 := by
  rw [ExtendedDecimal.ofFloat] at h
  generalize x.toModel.unpack = u at h
  cases u with
  | zero s =>
    cases h
    exact le_rfl
  | finite s m e hm =>
    cases h
    exact Decimal.exponent_ofBinary_nonpos m e
  | infinity s | notANumber => cases h

/-- A float that is no zero has an expansion that is none. -/
theorem eq_zero_of_ofFloat {negative : Bool} {d : Decimal}
    (h : ExtendedDecimal.ofFloat x = .finite negative d) (hd : d.coefficient = 0) :
    d = ⟨0, 0⟩ := by
  rw [ExtendedDecimal.ofFloat] at h
  generalize x.toModel.unpack = u at h
  cases u with
  | zero s =>
    cases h
    rfl
  | finite s m e hm =>
    cases h
    exact absurd hd (Decimal.coefficient_ofBinary_ne_zero hm e)
  | infinity s | notANumber => cases h

theorem exists_exactValue?_of_ofFloat {negative : Bool} {d : Decimal}
    (h : ExtendedDecimal.ofFloat x = .finite negative d) : ∃ q, exactValue? x = some q := by
  rw [ExtendedDecimal.ofFloat] at h
  rw [exactValue?]
  generalize x.toModel.unpack = u at h ⊢
  cases u with
  | zero s => exact ⟨_, rfl⟩
  | finite s m e hm => exact ⟨_, rfl⟩
  | infinity s | notANumber => cases h

theorem exactValue?_isSome_of_isWholeNumber (h : isWholeNumber x) :
    ∃ q, exactValue? x = some q := by
  rw [isWholeNumber] at h
  split at h
  · next hd => exact exists_exactValue?_of_ofFloat hd
  · cases h

theorem eq_natAbs_of_signed {n : ℤ} {s : Sign} (hq : 0 ≤ q) (h : (n : ℚ) = signed s q) :
    q = n.natAbs ∧ s.apply n.natAbs = n := by
  have habs : q = n.natAbs := by
    rw [Nat.cast_natAbs, Int.cast_abs, h, abs_signed, abs_of_nonneg hq]
  refine ⟨habs, ?_⟩
  have hcast : ((s.apply n.natAbs : ℤ) : ℚ) = n := by
    rw [cast_apply, h, habs, Int.cast_natCast]
  exact_mod_cast hcast

/-- A float is whole exactly if its value is an integer. -/
theorem isWholeNumber_iff : isWholeNumber x ↔ ∃ n : ℤ, exactValue? x = some (n : ℚ) := by
  constructor
  · intro h
    obtain ⟨q, hq⟩ := exactValue?_isSome_of_isWholeNumber h
    obtain ⟨s, d, hd, rfl⟩ := exists_ofFloat_eq hq
    rw [isWholeNumber, hd] at h
    obtain ⟨n, hn⟩ := Decimal.isWhole_iff.mp (of_decide_eq_true h)
    refine ⟨s.apply n, ?_⟩
    rw [hq, cast_apply, hn, Int.cast_natCast]
  · rintro ⟨n, hn⟩
    obtain ⟨s, d, hd, hvalue⟩ := exists_ofFloat_eq hn
    have hwhole := (eq_natAbs_of_signed d.toRat_nonneg hvalue).1
    rw [isWholeNumber, hd]
    exact decide_eq_true (Decimal.isWhole_iff.mpr ⟨n.natAbs, hwhole⟩)

theorem wholePart_eq {n : ℤ} (h : exactValue? x = some (n : ℚ)) : wholePart x = n := by
  obtain ⟨s, d, hd, hvalue⟩ := exists_ofFloat_eq h
  obtain ⟨hwhole, hsign⟩ := eq_natAbs_of_signed d.toRat_nonneg hvalue
  have hfloor : d.floor = n.natAbs := by
    rw [d.floor_eq, hwhole, Nat.floor_natCast]
  rw [wholePart, hd]
  cases s
  · show -(d.floor : ℤ) = n
    rw [hfloor]
    exact hsign
  · show (d.floor : ℤ) = n
    rw [hfloor]
    exact hsign

end PocketCalculator
