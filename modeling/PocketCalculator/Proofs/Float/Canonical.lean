import Mathlib

/-!
# Floats as mantissa and exponent

A finite float is a mantissa of at most 53 bits times a power of two. Of the pairs of mantissa and
exponent with one value only the canonical one is stored: its mantissa has all 53 bits, unless the
exponent is the smallest there is. Reading a stored float yields a canonical pair
(`isCanonical_of_unpack`), and storing a canonical pair loses nothing (`unpack_pack_finite`).
-/

namespace PocketCalculator

open Float.Model Float.Model.UnpackedFloat

structure IsCanonical (m : ℕ) (e : ℤ) : Prop where
  mantissa_lt : m < 2 ^ 53
  le_exponent : -1074 ≤ e
  exponent_le : e ≤ 971
  normal : 2 ^ 52 ≤ m ∨ e = -1074

/-! ### Storing and reading -/

theorem one_append_toNat (mantissa : BitVec 52) :
    (1#1 ++ mantissa).toNat = 2 ^ 52 + mantissa.toNat := by
  rw [BitVec.toNat_append, ← Nat.shiftLeft_add_eq_or_of_lt mantissa.isLt]
  rfl

theorem isCanonical_of_unpack {b : BitVec 64} {s : Sign} {m : ℕ} {e : ℤ} {hm : 0 < m}
    (h : unpack .binary64 b = .finite s m e hm) : IsCanonical m e := by
  have hbias : ((Format.binary64.exponentBias : ℕ) : ℤ) = 1023 := rfl
  have hmantissa : (@unpackMantissa .binary64 b).toNat < 2 ^ 52 := BitVec.isLt _
  have hexponent : (@unpackExponent .binary64 b).toNat < 2 ^ 11 := BitVec.isLt _
  have hone := one_append_toNat (@unpackMantissa .binary64 b)
  simp only [Float.Model.UnpackedFloat.unpack] at h
  split at h
  · split at h <;> cases h
  · next hinfinite =>
    have hbelow : (@unpackExponent .binary64 b).toNat ≠ 2047 := by
      intro heq
      exact hinfinite (BitVec.eq_of_toNat_eq heq)
    split at h
    · next hsubnormal =>
      split at h
      · cases h
      · cases h
        have hzero : (@unpackExponent .binary64 b).toNat = 0 := by
          rw [hsubnormal]
          rfl
        constructor <;> omega
    · next hnormal =>
      have habove : (@unpackExponent .binary64 b).toNat ≠ 0 := by
        intro heq
        exact hnormal (BitVec.eq_of_toNat_eq heq)
      cases h
      constructor <;> omega

theorem unpack_pack_finite {s : Sign} {m : ℕ} {e : ℤ} {hm : 0 < m} (h : IsCanonical m e) :
    unpack .binary64 (pack .binary64 (.finite s m e hm)) = .finite s m e hm := by
  obtain ⟨hmantissa, hleast, hgreatest, hnormal⟩ := h
  have hbias : ((Format.binary64.exponentBias : ℕ) : ℤ) = 1023 := rfl
  have hbits : Format.binary64.mantissaBits = 53 := rfl
  -- The exponent is stored with an offset, as a number between zero and 2047, both excluded.
  obtain ⟨biased, hbiased⟩ : ∃ biased : ℕ, (biased : ℤ) = e + 1075 := ⟨(e + 1075).toNat, by omega⟩
  have hstored : (e + Format.binary64.exponentBias + (52 : ℕ)).toNat = biased := by omega
  have hfits : ¬ 2 ^ 11 ≤ biased + 1 := by omega
  have htoNat : (BitVec.ofNat 11 biased).toNat = biased := by
    rw [BitVec.toNat_ofNat]
    omega
  simp only [Float.Model.UnpackedFloat.pack, hstored, if_neg hfits, hbits]
  -- A mantissa with all its bits is stored without the first one.
  by_cases hfull : 2 ^ 52 ≤ m
  · have hlog : m.log2 + 1 = 53 := by
      have hlower := (Nat.le_log2 hm.ne').mpr hfull
      have hupper := (Nat.log2_lt hm.ne').mpr hmantissa
      omega
    have hinfinite : BitVec.ofNat 11 biased ≠ -1#11 := by
      intro heq
      have := congrArg BitVec.toNat heq
      rw [htoNat] at this
      change biased = 2047 at this
      omega
    have hzero : BitVec.ofNat 11 biased ≠ 0#11 := by
      intro heq
      have := congrArg BitVec.toNat heq
      rw [htoNat] at this
      change biased = 0 at this
      omega
    have hrestored : (1#1 ++ BitVec.ofNat 52 m).toNat = m := by
      rw [one_append_toNat, BitVec.toNat_ofNat]
      omega
    simp only [if_pos hlog, Float.Model.UnpackedFloat.unpack, unpackMantissa_packComponents,
      unpackExponent_packComponents, unpackSign_packComponents, Sign.ofBitVec_toBitVec, hinfinite,
      hzero, if_false, hrestored, htoNat]
    congr 1
    omega
  · obtain rfl : e = -1074 := hnormal.resolve_left hfull
    have hlog : ¬ m.log2 + 1 = 53 := by
      have hupper := (Nat.log2_lt hm.ne').mpr (Nat.lt_of_not_le hfull)
      omega
    have hrestored : (BitVec.ofNat 52 m).toNat = m := by
      rw [BitVec.toNat_ofNat]
      omega
    have hzero : BitVec.ofNat 52 m ≠ 0#52 := by
      intro heq
      have := congrArg BitVec.toNat heq
      rw [hrestored] at this
      change m = 0 at this
      omega
    simp only [if_neg hlog, Float.Model.UnpackedFloat.unpack, unpackMantissa_packComponents,
      unpackExponent_packComponents, unpackSign_packComponents, Sign.ofBitVec_toBitVec, hrestored,
      dif_neg hzero]
    rfl

/-- An exponent that is too large is stored as infinity. -/
theorem unpack_pack_of_lt {s : Sign} {m : ℕ} {e : ℤ} {hm : 0 < m} (h : 971 < e) :
    unpack .binary64 (pack .binary64 (.finite s m e hm)) = .infinity s := by
  have hbias : ((Format.binary64.exponentBias : ℕ) : ℤ) = 1023 := rfl
  have hlarge : 2 ^ 11 ≤ (e + Format.binary64.exponentBias + (52 : ℕ)).toNat + 1 := by omega
  simp only [Float.Model.UnpackedFloat.pack, if_pos hlarge]
  cases s <;> rfl

end PocketCalculator
