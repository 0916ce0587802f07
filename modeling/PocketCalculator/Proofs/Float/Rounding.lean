import PocketCalculator.Proofs.Float.Canonical
import PocketCalculator.Proofs.Float.Nearest

/-!
# Rounding a mantissa

Bits dropped from a mantissa leave a trace in two residual bits, from which rounding can tell on
which side of the middle the exact number lies (`Abbreviates`). As long as no bits are missing, a
rounded mantissa is that of the nearest float, however the number was written
(`roundWithAccuracy_eq_nearestDatum`, `round_eq_nearestDatum`).
-/

namespace PocketCalculator

open Float.Model Float.Model.UnpackedFloat

/-! ### Residual bits -/

/-- The mantissa is the whole part of a number, the residual bits tell how its fraction compares
with zero and with one half. -/
def Abbreviates (em : ExtendedMantissa) (y : ℚ) : Prop :=
  ∃ rest : ℚ, 0 ≤ rest ∧ rest < 1 / 2 ∧ (em.stickyBit = true ↔ 0 < rest) ∧
    y = em.mantissa + (if em.roundBit then 1 / 2 else 0) + rest

variable {em : ExtendedMantissa} {y q : ℚ} {m n : ℕ} {e f : ℤ} {s : Sign} {accuracy : Accuracy}

theorem abbreviates_exact (m : ℕ) : Abbreviates ⟨m, false, false⟩ m :=
  ⟨0, le_rfl, by norm_num, by simp, by simp⟩

theorem abbreviates_accuracyOfFraction {r d : ℕ} (h : r < d) (m : ℕ) :
    Abbreviates (.ofMantissaAndAccuracy m (accuracyOfFraction r d)) (m + r / d) := by
  have hd : (0 : ℚ) < d := by
    exact_mod_cast Nat.zero_lt_of_lt h
  have hlt : (r : ℚ) / d < 1 := by
    rw [div_lt_one hd]
    exact_mod_cast h
  unfold accuracyOfFraction
  split
  · next hr =>
    rw [hr, Nat.cast_zero, zero_div, add_zero]
    exact abbreviates_exact m
  · next hr =>
    have hpos : (0 : ℚ) < r / d := by
      apply div_pos _ hd
      exact_mod_cast Nat.pos_of_ne_zero hr
    rcases lt_trichotomy (2 * r) d with hless | heq | hmore
    · rw [Nat.compare_eq_lt.mpr hless]
      have hhalf : (r : ℚ) / d < 1 / 2 := by
        rw [div_lt_div_iff₀ hd (by norm_num), one_mul, mul_comm]
        exact_mod_cast hless
      exact ⟨r / d, hpos.le, hhalf, by simp [ExtendedMantissa.ofMantissaAndAccuracy, hpos],
        by simp [ExtendedMantissa.ofMantissaAndAccuracy]⟩
    · rw [Nat.compare_eq_eq.mpr heq]
      refine ⟨0, le_rfl, by norm_num, by simp [ExtendedMantissa.ofMantissaAndAccuracy], ?_⟩
      simp only [ExtendedMantissa.ofMantissaAndAccuracy, if_true, add_zero, add_right_inj]
      rw [div_eq_div_iff hd.ne' (by norm_num), one_mul, mul_comm]
      exact_mod_cast heq
    · rw [Nat.compare_eq_gt.mpr hmore]
      have hhalf : 1 / 2 < (r : ℚ) / d := by
        rw [div_lt_div_iff₀ (by norm_num) hd, one_mul, mul_comm]
        exact_mod_cast hmore
      refine ⟨r / d - 1 / 2, by linarith, by linarith, ?_, ?_⟩
      · simp [ExtendedMantissa.ofMantissaAndAccuracy]
        linarith
      · simp [ExtendedMantissa.ofMantissaAndAccuracy]

namespace Abbreviates

theorem floor_eq (h : Abbreviates em y) : ⌊y⌋ = em.mantissa := by
  obtain ⟨rest, hnonneg, hlt, -, rfl⟩ := h
  rw [Int.floor_eq_iff]
  push_cast
  split <;> constructor <;> linarith

theorem shiftRightOne (h : Abbreviates em y) : Abbreviates em.shiftRightOne (y / 2) := by
  obtain ⟨rest, hnonneg, hlt, hsticky, rfl⟩ := h
  have hparity : (em.mantissa : ℚ) = 2 * (em.mantissa / 2 : ℕ) + (em.mantissa % 2 : ℕ) := by
    exact_mod_cast (Nat.div_add_mod em.mantissa 2).symm
  refine ⟨((if em.roundBit then 1 / 2 else 0) + rest) / 2, ?_, ?_, ?_, ?_⟩
  · split <;> linarith
  · split <;> linarith
  · rw [ExtendedMantissa.shiftRightOne, Bool.or_eq_true, hsticky]
    split
    · next hround =>
      simp only [hround, true_or, true_iff]
      linarith
    · next hround =>
      simp only [hround, zero_add, Bool.false_eq_true, false_or]
      exact ⟨fun h ↦ by linarith, fun h ↦ by linarith⟩
  · rw [ExtendedMantissa.shiftRightOne, hparity]
    rcases Nat.mod_two_eq_zero_or_one em.mantissa with hmod | hmod
    · simp [hmod]
      ring
    · simp [hmod]
      ring

/-- Shifting to the right keeps the residual bits right. -/
theorem shiftRight (h : Abbreviates em y) (k : ℕ) : Abbreviates (em >>> k) (y / 2 ^ k) := by
  show Abbreviates (k.repeat ExtendedMantissa.shiftRightOne em) _
  induction k with
  | zero => rwa [pow_zero, div_one]
  | succ k ih =>
    rw [pow_succ, ← div_div]
    exact ih.shiftRightOne

theorem roundedMantissa_eq (h : Abbreviates em y) : (em.roundedMantissa : ℤ) = roundHalfEven y := by
  have hfloor := h.floor_eq
  obtain ⟨rest, hnonneg, hlt, hsticky, hy⟩ := h
  have hfract : Int.fract y = (if em.roundBit then 1 / 2 else 0) + rest := by
    rw [Int.fract, hfloor, hy]
    push_cast
    ring
  obtain ⟨m, round, sticky⟩ := em
  cases round with
  | false =>
    have hbelow : Int.fract y < 1 / 2 := by
      rw [hfract]
      simpa using hlt
    rw [roundHalfEven_eq_of_fract_lt hbelow, hfloor]
    cases sticky <;> rfl
  | true =>
    cases sticky with
    | false =>
      have hrest : rest = 0 := by
        apply le_antisymm _ hnonneg
        simpa using hsticky
      have htie : Int.fract y = 1 / 2 := by simp [hfract, hrest]
      rw [roundHalfEven_eq_of_fract_eq htie, hfloor]
      rfl
    | true =>
      have habove : 1 / 2 < Int.fract y := by
        rw [hfract]
        simpa using hsticky
      rw [roundHalfEven_eq_of_lt_fract habove, hfloor]
      rfl

end Abbreviates

/-! ### Rounding to 53 bits -/

theorem targetExponent_eq_max (m : ℕ) (e : ℤ) :
    Format.binary64.targetExponent (totalExponent m e) = max (m.log2 + e - 52) (-1074) := by
  have hbits : ((Format.binary64.mantissaBits : ℕ) : ℤ) = 53 := rfl
  have hleast : Format.binary64.minExponent = -1074 := rfl
  rw [Format.targetExponent, totalExponent, hbits, hleast]
  congr 1
  ring

theorem log2_add_eq (hm : m ≠ 0) (hq : 0 < q) (hfloor : ⌊q / 2 ^ e⌋ = m) :
    (m.log2 : ℤ) + e = Int.log 2 q := by
  have hpow : (0 : ℚ) < 2 ^ e := by positivity
  obtain ⟨hlower, hupper⟩ := Int.floor_eq_iff.mp hfloor
  rw [le_div_iff₀ hpow, Int.cast_natCast] at hlower
  rw [div_lt_iff₀ hpow] at hupper
  have hbits : (2 : ℚ) ^ m.log2 ≤ m := by
    exact_mod_cast Nat.log2_self_le hm
  have hnext : (m : ℚ) + 1 ≤ 2 ^ (m.log2 + 1) := by
    exact_mod_cast (Nat.lt_log2_self : m < 2 ^ (m.log2 + 1))
  apply le_antisymm
  · apply (two_zpow_le_iff_le_log hq).mp
    rw [zpow_add₀ (by norm_num), zpow_natCast]
    exact (mul_le_mul_of_nonneg_right hbits hpow.le).trans hlower
  · apply Int.le_of_lt_add_one
    apply (lt_two_zpow_iff_log_lt hq).mp
    rw [add_right_comm, zpow_add₀ (by norm_num)]
    apply hupper.trans_le
    exact_mod_cast mul_le_mul_of_nonneg_right hnext hpow.le

/-- The exponent that a mantissa is shifted to is the last place of the number. -/
theorem targetExponent_eq_lastPlace (hq : 0 < q) (hfloor : ⌊q / 2 ^ e⌋ = m)
    (he : e ≤ lastPlace q) :
    Format.binary64.targetExponent (totalExponent m e) = lastPlace q := by
  rw [targetExponent_eq_max]
  rcases eq_or_ne m 0 with rfl | hm
  · -- Nothing is left of the number before its last place, which is the least place then.
    have hbelow : q < 2 ^ e := by
      have hpow : (0 : ℚ) < 2 ^ e := by positivity
      have hupper := (Int.floor_eq_iff.mp hfloor).2
      rw [div_lt_iff₀ hpow] at hupper
      simpa using hupper
    have hlog := (lt_two_zpow_iff_log_lt hq).mp hbelow
    rw [lastPlace, abs_of_pos hq] at he ⊢
    have hzero : ((Nat.log2 0 : ℕ) : ℤ) = 0 := rfl
    omega
  · rw [log2_add_eq hm hq hfloor, lastPlace, abs_of_pos hq]

theorem mantissa_ofMantissaAndAccuracy (m : ℕ) (accuracy : Accuracy) :
    (ExtendedMantissa.ofMantissaAndAccuracy m accuracy).mantissa = m := by
  unfold ExtendedMantissa.ofMantissaAndAccuracy
  split <;> rfl

theorem exists_shiftToTargetExponent_eq (hq : 0 < q)
    (h : Abbreviates (.ofMantissaAndAccuracy m accuracy) (q / 2 ^ e)) (he : e ≤ lastPlace q) :
    ∃ em, shiftToTargetExponent .binary64 m e accuracy = (em, lastPlace q) ∧
      Abbreviates em (q / 2 ^ lastPlace q) := by
  have hfloor := h.floor_eq
  rw [mantissa_ofMantissaAndAccuracy] at hfloor
  obtain ⟨k, hk⟩ := Int.le.dest he
  have hamount : (lastPlace q - e).toNat = k := by omega
  refine ⟨ExtendedMantissa.ofMantissaAndAccuracy m accuracy >>> k, ?_, ?_⟩
  · rw [shiftToTargetExponent, targetExponent_eq_lastPlace hq hfloor he, shiftToExponent, hamount,
      hk]
  · rw [← hk, zpow_add₀ (by norm_num), zpow_natCast, ← div_div]
    exact h.shiftRight k

theorem shiftToTargetExponent_of_lt (hn : n < 2 ^ 53) (he : -1074 ≤ e) :
    shiftToTargetExponent .binary64 n e .exact = (⟨n, false, false⟩, e) := by
  have hlog : n.log2 ≤ 52 := by
    rcases eq_or_ne n 0 with rfl | hne
    · decide
    · have := (Nat.log2_lt hne).mpr hn
      omega
  have hamount : (Format.binary64.targetExponent (totalExponent n e) - e).toNat = 0 := by
    rw [targetExponent_eq_max]
    omega
  rw [shiftToTargetExponent, shiftToExponent, hamount, Nat.cast_zero, add_zero]
  rfl

theorem shiftToTargetExponent_two_pow (he : -1074 ≤ e) :
    shiftToTargetExponent .binary64 (2 ^ 53) e .exact = (⟨2 ^ 52, false, false⟩, e + 1) := by
  have hamount : (Format.binary64.targetExponent (totalExponent (2 ^ 53) e) - e).toNat = 1 := by
    rw [targetExponent_eq_max, Nat.log2_two_pow]
    omega
  rw [shiftToTargetExponent, shiftToExponent, hamount, Nat.cast_one]
  rfl

/-- The datum that a positive number is rounded to. Its mantissa has 53 bits at most; rounding up
may bring a 54th, and then the exponent is one more. -/
def nearestDatum (s : Sign) (q : ℚ) : UnpackedFloat :=
  let mantissa := (roundHalfEven (q / 2 ^ lastPlace q)).toNat
  if h : mantissa = 0 then .zero s
  else if mantissa = 2 ^ 53 then .finite s (2 ^ 52) (lastPlace q + 1) (by decide)
  else .finite s mantissa (lastPlace q) (Nat.pos_of_ne_zero h)

theorem roundWithAccuracy_eq_nearestDatum (hq : 0 < q)
    (h : Abbreviates (.ofMantissaAndAccuracy m accuracy) (q / 2 ^ e)) (he : e ≤ lastPlace q) :
    roundWithAccuracy .binary64 s m e accuracy = nearestDatum s q := by
  obtain ⟨em, hshift, hem⟩ := exists_shiftToTargetExponent_eq hq h he
  have hrounded : (roundHalfEven (q / 2 ^ lastPlace q)).toNat = em.roundedMantissa := by
    rw [← hem.roundedMantissa_eq, Int.toNat_natCast]
  have hle : em.roundedMantissa ≤ 2 ^ 53 := by
    have hbound := abs_le.mp (abs_roundHalfEven_le q)
    omega
  have hleast := neg_1074_le_lastPlace q
  rw [roundWithAccuracy, hshift, nearestDatum]
  simp only [hrounded]
  rcases hle.lt_or_eq with hlt | heq
  · simp only [shiftToTargetExponent_of_lt hlt hleast, if_neg hlt.ne]
  · simp only [heq, shiftToTargetExponent_two_pow hleast]
    rfl

/-- Rounding does not depend on how a number is written. -/
theorem round_eq_nearestDatum (hm : 0 < m) (e : ℤ) :
    UnpackedFloat.round .binary64 s m e = nearestDatum s (m * 2 ^ e) := by
  have hq : (0 : ℚ) < m * 2 ^ e := by positivity
  obtain ⟨k, hk⟩ : ∃ k : ℕ, k = (e - lastPlace (m * 2 ^ e)).toNat := ⟨_, rfl⟩
  have hscaled : ((m * 2 ^ k : ℕ) : ℚ) = m * 2 ^ e / 2 ^ (e - k) := by
    rw [eq_div_iff (by positivity), zpow_sub₀ (by norm_num), zpow_natCast]
    push_cast
    field_simp
  have htarget : Format.binary64.targetExponent (totalExponent m e) = lastPlace (m * 2 ^ e) := by
    have hfloor : ⌊(m * 2 ^ e : ℚ) / 2 ^ e⌋ = m := by
      rw [mul_div_cancel_right₀ _ (by positivity), Int.floor_natCast]
    rw [targetExponent_eq_max, log2_add_eq hm.ne' hq hfloor, lastPlace, abs_of_pos hq]
  simp only [UnpackedFloat.round, htarget, decreaseExponent, ← hk, Nat.shiftLeft_eq]
  apply roundWithAccuracy_eq_nearestDatum hq _ (by omega)
  rw [← hscaled]
  exact abbreviates_exact _

end PocketCalculator
