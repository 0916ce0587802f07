import PocketCalculator.Proofs.Float.Exact

/-!
# Floats are ordered like their values

Of two canonical pairs the one with the greater exponent is the greater number. So comparing
exponents first and mantissas second, as floats are compared, compares the values
(`lt_iff_of_exactValue?`).
-/

namespace PocketCalculator

open Float.Model Float.Model.UnpackedFloat

variable {m n : ℕ} {e f : ℤ}

theorem IsCanonical.lt_of_exponent_lt (hm : IsCanonical m e) (hn : IsCanonical n f) (h : e < f) :
    (m : ℚ) * 2 ^ e < n * 2 ^ f := by
  have hleast := hm.le_exponent
  have hnormal : 2 ^ 52 ≤ n := hn.normal.resolve_right (by omega)
  have hpow : (0 : ℚ) < 2 ^ e := by positivity
  calc
    (m : ℚ) * 2 ^ e < 2 ^ 53 * 2 ^ e := by
      apply mul_lt_mul_of_pos_right _ hpow
      exact_mod_cast hm.mantissa_lt
    _ = 2 ^ 52 * 2 ^ (e + 1) := by
      rw [zpow_add₀ (by norm_num)]
      ring
    _ ≤ n * 2 ^ f := by
      apply mul_le_mul
      · exact_mod_cast hnormal
      · exact zpow_le_zpow_right₀ (by norm_num) (by omega)
      · positivity
      · positivity

theorem IsCanonical.compare_eq (hm : IsCanonical m e) (hn : IsCanonical n f) :
    (compare e f).then (compare m n) = compare ((m : ℚ) * 2 ^ e) (n * 2 ^ f) := by
  rcases lt_trichotomy e f with hlt | rfl | hgt
  · have hvalues := hm.lt_of_exponent_lt hn hlt
    rw [compare_lt_iff_lt.mpr hlt, compare_lt_iff_lt.mpr hvalues]
    rfl
  · have hmono : StrictMono fun k : ℕ ↦ (k : ℚ) * 2 ^ e :=
      Nat.strictMono_cast.mul_const (by positivity)
    rw [compare_eq_iff_eq.mpr (rfl : e = e), ← cmp_eq_compare, ← cmp_eq_compare]
    exact (hmono.cmp_map_eq m n).symm
  · have hvalues := hn.lt_of_exponent_lt hm hgt
    rw [compare_gt_iff_gt.mpr hgt, compare_gt_iff_gt.mpr hvalues]
    rfl

variable {u v : UnpackedFloat} {x y : Float} {p q : ℚ}

theorem compare_neg_neg (p q : ℚ) : compare (-p) (-q) = (compare p q).swap := by
  have hanti : StrictAnti fun r : ℚ ↦ -r := strictMono_id.neg
  rw [← cmp_eq_compare, ← cmp_eq_compare, cmp_swap]
  exact hanti.cmp_map_eq p q

theorem Denotes.compare_eq (hu : Denotes u p) (hv : Denotes v q) :
    UnpackedFloat.compare u v = some (compare p q) := by
  cases hu with
  | zero s =>
    cases hv with
    | zero t => exact congrArg some (compare_eq_iff_eq.mpr rfl).symm
    | @finite t n f hn hv =>
      have hpos : (0 : ℚ) < n * 2 ^ f := by positivity
      cases t with
      | negative => exact congrArg some (compare_gt_iff_gt.mpr (neg_neg_of_pos hpos)).symm
      | positive => exact congrArg some (compare_lt_iff_lt.mpr hpos).symm
  | @finite s m e hm hu =>
    have hmpos : (0 : ℚ) < m * 2 ^ e := by positivity
    cases hv with
    | zero t =>
      cases s with
      | negative => exact congrArg some (compare_lt_iff_lt.mpr (neg_neg_of_pos hmpos)).symm
      | positive => exact congrArg some (compare_gt_iff_gt.mpr hmpos).symm
    | @finite t n f hn hv =>
      have hnpos : (0 : ℚ) < n * 2 ^ f := by positivity
      have hmagnitudes := hu.compare_eq hv
      cases s with
      | negative =>
        cases t with
        | negative =>
          rw [signed, signed, compare_neg_neg, ← hmagnitudes]
          rfl
        | positive =>
          exact congrArg some (compare_lt_iff_lt.mpr ((neg_neg_of_pos hmpos).trans hnpos)).symm
      | positive =>
        cases t with
        | negative =>
          exact congrArg some (compare_gt_iff_gt.mpr ((neg_neg_of_pos hnpos).trans hmpos)).symm
        | positive => exact congrArg some hmagnitudes

theorem lt_iff_of_exactValue? (hx : exactValue? x = some p) (hy : exactValue? y = some q) :
    x < y ↔ p < q := by
  have hcompare := (exactValue?_eq_some_iff.mp hx).compare_eq (exactValue?_eq_some_iff.mp hy)
  show decide ((UnpackedFloat.compare x.toModel.unpack y.toModel.unpack == some .lt) = true) =
    true ↔ p < q
  rw [decide_eq_true_iff, hcompare, beq_iff_eq, Option.some_inj, compare_lt_iff_lt]

theorem beq_iff_of_exactValue? (hx : exactValue? x = some p) (hy : exactValue? y = some q) :
    x == y ↔ p = q := by
  have hcompare := (exactValue?_eq_some_iff.mp hx).compare_eq (exactValue?_eq_some_iff.mp hy)
  show (UnpackedFloat.compare x.toModel.unpack y.toModel.unpack == some .eq) = true ↔ p = q
  rw [hcompare, beq_iff_eq, Option.some_inj, compare_eq_iff_eq]

theorem le_iff_of_exactValue? (hx : exactValue? x = some p) (hy : exactValue? y = some q) :
    x ≤ y ↔ p ≤ q := by
  have hcompare := (exactValue?_eq_some_iff.mp hx).compare_eq (exactValue?_eq_some_iff.mp hy)
  show decide ((UnpackedFloat.compare x.toModel.unpack y.toModel.unpack).any Ordering.isLE = true) =
    true ↔ p ≤ q
  rw [decide_eq_true_iff, hcompare, Option.any_some, Ordering.isLE_iff_ne_gt, ← compare_le_iff_le]

/-- A number other than zero is the value of one float only. -/
theorem eq_of_exactValue? (hx : exactValue? x = some q) (hy : exactValue? y = some q)
    (hq : q ≠ 0) : x = y := by
  obtain ⟨-, -, heq | ⟨rfl, -⟩ | ⟨-, rfl⟩⟩ :=
    Float.beq_iff_ne_nan_and_eq.mp ((beq_iff_of_exactValue? hx hy).mpr rfl)
  · exact heq
  · exact absurd (Option.some.inj (hx.symm.trans exactValue?_zero)) hq
  · exact absurd (Option.some.inj (hy.symm.trans exactValue?_zero)) hq

end PocketCalculator
