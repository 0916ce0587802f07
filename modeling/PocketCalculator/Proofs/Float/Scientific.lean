import PocketCalculator.Proofs.Float.Exact

/-!
# Decimal literals are floats

A natural number times a power of ten is turned into the nearest float (`exactValue?_ofScientific`):
by one rounded operation where both factors are floats, with long mantissas otherwise. Where powers
of ten are too large or too small to be computed, the number is out of the range of floats.
-/

namespace PocketCalculator

open Float.Model Float.Model.UnpackedFloat

variable {n : ℕ} {e : ℤ} {q : ℚ}

/-! ### Factors that are floats -/

theorem representable_intCast {n : ℤ} (h : n.natAbs ≤ 2 ^ 53) : Representable n := by
  have habs : |(n : ℚ)| = n.natAbs := by
    rw [Nat.cast_natAbs, Int.cast_abs]
  rcases h.lt_or_eq with hlt | heq
  · exact ⟨n.natAbs, 0, hlt, by norm_num, by norm_num, by rw [habs, zpow_zero, mul_one]⟩
  · refine ⟨2 ^ 52, 1, by norm_num, by norm_num, by norm_num, ?_⟩
    rw [habs, heq]
    norm_num

theorem nearest?_natCast (h : n ≤ 2 ^ 53) : nearest? n = some (n : ℚ) :=
  nearest?_of_representable (representable_intCast (n := n) (by omega))

theorem natCast_le_nearest (hn : n ≤ 2 ^ 53) (h : n ≤ q) : n ≤ nearest q := by
  have hself : nearest n = n := by
    exact_mod_cast nearest_of_representable (representable_intCast (n := n) (by simpa using hn))
  rw [← hself]
  exact nearest_mono h

theorem one_le_nearest (h : 1 ≤ q) : 1 ≤ nearest q := by
  exact_mod_cast natCast_le_nearest (n := 1) (by norm_num) (by exact_mod_cast h)

theorem exactValue?_toUInt64 (h : n < 2 ^ 53) : exactValue? n.toUInt64.toFloat = some (n : ℚ) := by
  have hword : n.toUInt64.toNat = n := by
    rw [Nat.toUInt64_eq, UInt64.toNat_ofNat']
    omega
  have hrepresentable : Representable (((n : ℤ) : ℚ) * 2 ^ (0 : ℤ)) := by
    rw [zpow_zero, mul_one]
    apply representable_intCast
    omega
  show storedValue? (UnpackedFloat.normalize .binary64 (n.toUInt64.toNat : ℤ) 0 .positive) =
    some (n : ℚ)
  rw [hword, storedValue?_normalize, nearest?_of_representable hrepresentable, zpow_zero, mul_one,
    Int.cast_natCast]

/-- The powers of ten in the table are those of five, filled up to 53 bits. -/
theorem unpack_powerOfTen (k : Fin 23) :
    ∃ hm, Float.exactlyRepresentablePowersOfTen[k.val].toModel.unpack =
      .finite .positive (5 ^ k.val * 2 ^ (52 - (5 ^ k.val).log2)) ((5 ^ k.val).log2 + k.val - 52)
        hm := by
  fin_cases k <;> exact ⟨by decide, by rfl⟩

theorem exactValue?_powerOfTen (k : Fin 23) :
    exactValue? Float.exactlyRepresentablePowersOfTen[k.val] = some (10 ^ k.val) := by
  obtain ⟨hm, hk⟩ := unpack_powerOfTen k
  have hlog : (5 ^ k.val).log2 ≤ 52 := by
    have hbound : 5 ^ k.val ≤ 5 ^ 22 := Nat.pow_le_pow_right (by norm_num) (by omega)
    have := (Nat.log2_lt (by positivity : 5 ^ k.val ≠ 0)).mpr
      (hbound.trans_lt (by norm_num : 5 ^ 22 < 2 ^ 53))
    omega
  have hexponent : (((5 ^ k.val).log2 : ℕ) : ℤ) + k.val - 52 =
      k.val - ((52 - (5 ^ k.val).log2 : ℕ) : ℤ) := by omega
  rw [exactValue?, hk, unpackedValue?, signed, hexponent, zpow_sub₀ (by norm_num), zpow_natCast,
    zpow_natCast]
  congr 1
  push_cast
  rw [mul_assoc, mul_div_cancel₀ _ (by positivity), ← mul_pow]
  norm_num

/-! ### A number times a power of ten -/

theorem two_pow_le_of_lt {n : ℕ} (hn : n ≠ 0) (h : 2 ^ 11 < e) :
    (2 : ℚ) ^ 1024 ≤ n * 10 ^ e := by
  have hone : (1 : ℚ) ≤ n := by
    exact_mod_cast Nat.one_le_iff_ne_zero.mpr hn
  calc
    (2 : ℚ) ^ 1024 = 2 ^ (1024 : ℤ) := by norm_num
    _ ≤ 10 ^ (1024 : ℤ) := zpow_le_zpow_left₀ (by norm_num) (by norm_num) (by norm_num)
    _ ≤ 10 ^ e := zpow_le_zpow_right₀ (by norm_num) (by omega)
    _ ≤ n * 10 ^ e := le_mul_of_one_le_left (by positivity) hone

theorem lt_two_zpow_of_lt {n : ℕ} (h : e < -(2 ^ 11 + n.log2)) :
    (n : ℚ) * 10 ^ e < 2 ^ (-1075 : ℤ) := by
  have hlog : (n : ℚ) < 2 ^ ((n.log2 : ℤ) + 1) := by
    exact_mod_cast (Nat.lt_log2_self : n < 2 ^ (n.log2 + 1))
  have hpower : (10 : ℚ) ^ e ≤ 2 ^ e := by
    obtain ⟨k, rfl⟩ : ∃ k : ℕ, e = -k := ⟨e.natAbs, by omega⟩
    rw [zpow_neg, zpow_neg, zpow_natCast, zpow_natCast]
    gcongr
    norm_num
  calc
    (n : ℚ) * 10 ^ e ≤ n * 2 ^ e := mul_le_mul_of_nonneg_left hpower (Nat.cast_nonneg n)
    _ < 2 ^ ((n.log2 : ℤ) + 1) * 2 ^ e := mul_lt_mul_of_pos_right hlog (by positivity)
    _ = 2 ^ ((n.log2 : ℤ) + 1 + e) := (zpow_add₀ (by norm_num) _ _).symm
    _ ≤ 2 ^ (-1075 : ℤ) := zpow_le_zpow_right₀ (by norm_num) (by omega)

theorem storedValue?_mul_powerOfTen {n : ℕ} (hn : n ≠ 0) (k : ℕ) {hm : 0 < n <<< 53}
    {hk : 0 < 10 ^ k} :
    storedValue? (UnpackedFloat.mul .binary64 (.finite .positive (n <<< 53) (-53) hm)
      (.finite .positive (10 ^ k) 0 hk)) = nearest? (n * 10 ^ (k : ℤ)) := by
  have hpos : (0 : ℚ) < n * 10 ^ (k : ℤ) := by positivity
  have hvalue : ((n <<< 53 : ℕ) : ℚ) * 2 ^ (-53 : ℤ) * ((10 ^ k : ℕ) * 2 ^ (0 : ℤ)) =
      n * 10 ^ (k : ℤ) := by
    rw [Nat.shiftLeft_eq, zpow_natCast]
    push_cast
    field_simp
    norm_num
  have hone : (1 : ℚ) ≤ n * 10 ^ k := by
    exact_mod_cast Nat.one_le_iff_ne_zero.mpr (by positivity)
  have hplace : -53 + 0 ≤ lastPlace (n * 10 ^ (k : ℤ)) := by
    apply le_lastPlace_of_le_abs hpos.ne'
    rw [abs_of_pos hpos, zpow_natCast]
    apply le_trans _ hone
    norm_num
  rw [← hvalue] at hplace ⊢
  rw [mul_finite_eq_nearestDatum hplace, storedValue?_nearestDatum (by rwa [hvalue])]
  rfl

theorem storedValue?_div_powerOfTen {n : ℕ} (hn : n ≠ 0) (k : ℕ) {hm : 0 < n} {hk : 0 < 10 ^ k} :
    storedValue? (UnpackedFloat.div .binary64 (.finite .positive n 0 hm)
      (.finite .positive (10 ^ k) 0 hk)) = nearest? (n * 10 ^ (-(k : ℤ))) := by
  have hvalue : (n : ℚ) * 2 ^ (0 : ℤ) / ((10 ^ k : ℕ) * 2 ^ (0 : ℤ)) = n * 10 ^ (-(k : ℤ)) := by
    rw [zpow_neg, zpow_natCast]
    push_cast
    ring
  rw [div_finite_eq_nearestDatum, hvalue, storedValue?_nearestDatum (by positivity)]
  rfl

theorem storedValue?_ofScientific (n : ℕ) (e : ℤ) :
    storedValue? (UnpackedFloat.ofScientific .binary64 n e) = nearest? (n * 10 ^ e) := by
  have hzero : storedValue? (.zero .positive) = some 0 := (Denotes.zero _).storedValue?_eq
  rw [UnpackedFloat.ofScientific]
  split
  · next hn => rw [hn, Nat.cast_zero, zero_mul, hzero, (Denotes.zero .positive).nearest?_eq]
  · next hn =>
    have hpos : (0 : ℚ) < n * 10 ^ e := by positivity
    split
    · next hlarge =>
      rw [nearest?_of_two_pow_le]
      · rfl
      · rw [abs_of_pos hpos]
        exact two_pow_le_of_lt hn hlarge
    · split
      · next hsmall =>
        rw [hzero, nearest?, nearest_of_abs_lt, abs_zero, if_pos (by positivity)]
        rw [abs_of_pos hpos]
        exact lt_two_zpow_of_lt hsmall
      · split
        · next he =>
          obtain ⟨k, rfl⟩ : ∃ k : ℕ, e = k := ⟨e.toNat, by omega⟩
          exact storedValue?_mul_powerOfTen hn k
        · next he =>
          obtain ⟨k, rfl⟩ : ∃ k : ℕ, e = -k := ⟨e.natAbs, by omega⟩
          simp only [neg_neg, Int.toNat_natCast]
          exact storedValue?_div_powerOfTen hn k

/-- A decimal literal is the nearest float. -/
theorem exactValue?_ofScientific (n : ℕ) (negative : Bool) (k : ℕ) :
    exactValue? (Float.ofScientific n negative k) =
      nearest? (n * 10 ^ (if negative then -(k : ℤ) else k)) := by
  rw [Float.ofScientific]
  split
  · next hsmall =>
    have hpower := exactValue?_powerOfTen ⟨k, by omega⟩
    have hword := exactValue?_toUInt64 hsmall.1
    split
    · rw [exactValue?_div_eq hword hpower (by positivity), zpow_neg, zpow_natCast, div_eq_mul_inv]
    · rw [exactValue?_mul_eq hword hpower, zpow_natCast]
  · have hscientific := storedValue?_ofScientific n (if negative then -(k : ℤ) else k)
    cases negative with
    | true =>
      rw [← hscientific, if_pos rfl, if_pos rfl, Int.negOfNat_eq]
      rfl
    | false => exact hscientific

theorem exactValue?_ofNat_eq (n : ℕ) : exactValue? (Float.ofNat n) = nearest? n := by
  show exactValue? (Float.ofScientific n false 0) = nearest? n
  rw [exactValue?_ofScientific]
  simp

theorem exactValue?_ofNat (h : n ≤ 2 ^ 53) : exactValue? (Float.ofNat n) = some (n : ℚ) := by
  rw [exactValue?_ofNat_eq, nearest?_natCast h]

theorem exactValue?_ofInt {n : ℤ} (h : n.natAbs ≤ 2 ^ 53) :
    exactValue? (Float.ofInt n) = some (n : ℚ) := by
  cases n with
  | ofNat n => exact exactValue?_ofNat h
  | negSucc n =>
    have hmagnitude : exactValue? (Float.ofNat (n + 1)) = some ((n + 1 : ℕ) : ℚ) :=
      exactValue?_ofNat h
    show exactValue? (-Float.ofNat (n + 1)) = some ((Int.negSucc n : ℤ) : ℚ)
    rw [exactValue?_neg, hmagnitude, Int.cast_negSucc]
    rfl

end PocketCalculator
