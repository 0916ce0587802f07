import PocketCalculator.Decimal.Notation
import PocketCalculator.Proofs.Readout

/-!
# Where the fewest digits end

The fewest digits of a float end no later than any other digits of it
(`Decimal.exponent_le_exponent_shortest_of_toFloat`). So those of a whole number end at the units or
before, and they are those of the number as long as whole numbers are floats: the plain text of a
whole number is its numeral (`plainText_of_integer`).
-/

namespace PocketCalculator

/-- A search stops where it may stop, or before. -/
theorem exists_le_of_findSome?_range {α : Type} {f : ℕ → Option α} {i m : ℕ} (hi : i < m)
    (h : (f i).isSome) : ∃ j ≤ i, ∃ a, f j = some a ∧ (List.range m).findSome? f = some a := by
  obtain ⟨k, rfl⟩ : ∃ k, m = i + 1 + k := ⟨m - (i + 1), by omega⟩
  have hfound : ((List.range (i + 1)).findSome? f).isSome := by
    rw [List.findSome?_isSome_iff]
    exact ⟨i, List.mem_range.mpr (Nat.lt_succ_self i), h⟩
  obtain ⟨a, ha⟩ := Option.isSome_iff_exists.mp hfound
  obtain ⟨j, hj, hja⟩ := List.exists_of_findSome?_eq_some ha
  refine ⟨j, Nat.le_of_lt_succ (List.mem_range.mp hj), a, hja, ?_⟩
  rw [List.range_add, List.findSome?_append, ha, Option.some_or]

namespace Decimal

variable {d e : Decimal} {n k : ℕ}

/-! ### Where the fewest digits end -/

theorem exponent_le_of_neighbour? {count : ℕ} (h : d.neighbour? count = some e) :
    d.exponent + (d.digitCount - count : ℕ) ≤ e.exponent := by
  simp only [neighbour?] at h
  split at h
  · cases h
    exact le_rfl
  · split at h
    · cases h
      simp only [succ]
      split
      · exact Int.le_add_one le_rfl
      · exact le_rfl
    · cases h

theorem exponent_le_exponent_shortest (d : Decimal) : d.exponent ≤ d.shortest.exponent := by
  rw [shortest]
  cases h : (List.range d.digitCount).findSome? fun dropped ↦ d.neighbour? (dropped + 1) with
  | none => exact le_rfl
  | some e =>
    obtain ⟨dropped, -, he⟩ := List.exists_of_findSome?_eq_some h
    have hexponent := exponent_le_of_neighbour? he
    rw [Option.getD_some]
    omega

theorem isSome_neighbour? {count : ℕ} (h : (d.truncate count).toFloat = d.toFloat ∨
    (d.truncate count).succ.toFloat = d.toFloat) : (d.neighbour? count).isSome := by
  simp only [neighbour?]
  by_cases hupper : (d.truncate count).succ.toFloat = d.toFloat
  · split <;> rfl
  · rw [if_pos ⟨h.resolve_right hupper, .inr hupper⟩]
    rfl

theorem toRat_succ (d : Decimal) : d.succ.toRat = (d.coefficient + 1) * 10 ^ d.exponent := by
  rw [succ]
  split
  · next hnines =>
    obtain ⟨k, hk⟩ : ∃ k, d.digitCount = k + 1 :=
      Nat.exists_eq_succ_of_ne_zero (Nat.length_toDigits_pos (b := 10)).ne'
    have hcoefficient : (d.coefficient : ℚ) + 1 = 10 ^ (k + 1) := by
      rw [hk, Nat.pow_eq] at hnines
      exact_mod_cast hnines
    rw [toRat, hk, hcoefficient, Nat.add_sub_cancel, Nat.pow_eq, zpow_add_one₀ (by norm_num)]
    push_cast
    ring
  · rw [toRat]
    push_cast
    rfl

/-- A decimal cut at a place, and the next one with that last place, enclose it. -/
theorem truncate_bounds {dropped : ℕ} (h : dropped ≤ d.digitCount) :
    ∃ a : ℕ, d.truncate (d.digitCount - dropped) = ⟨a, d.exponent + dropped⟩ ∧
      a * (10 : ℚ) ^ (d.exponent + dropped) ≤ d.toRat ∧
      d.toRat < (a + 1) * 10 ^ (d.exponent + dropped) := by
  have hpos : 0 < 10 ^ dropped := by positivity
  have hunit : (0 : ℚ) < 10 ^ d.exponent := by positivity
  have hdropped : d.digitCount - (d.digitCount - dropped) = dropped := by omega
  have hlower : d.coefficient / 10 ^ dropped * 10 ^ dropped ≤ d.coefficient :=
    Nat.div_mul_le_self _ _
  have hupper : d.coefficient < (d.coefficient / 10 ^ dropped + 1) * 10 ^ dropped := by
    rw [← Nat.div_lt_iff_lt_mul hpos]
    exact Nat.lt_succ_self _
  refine ⟨d.coefficient / 10 ^ dropped, by rw [truncate, hdropped, Nat.pow_eq], ?_, ?_⟩
  · rw [toRat, zpow_add₀ (by norm_num), mul_comm ((10 : ℚ) ^ d.exponent), ← mul_assoc, zpow_natCast]
    apply mul_le_mul_of_nonneg_right _ hunit.le
    exact_mod_cast hlower
  · rw [toRat, zpow_add₀ (by norm_num), mul_comm ((10 : ℚ) ^ d.exponent), ← mul_assoc, zpow_natCast]
    apply mul_lt_mul_of_pos_right _ hunit
    exact_mod_cast hupper

/-- What lies between two decimals with the same float has that float too. -/
theorem toFloat_eq_of_mem_uIcc {f : Decimal} {r : ℚ} (hd : nearest? d.toRat = some r) (hr : r ≠ 0)
    (he : e.toFloat = d.toFloat) (hf : f.toRat ∈ Set.uIcc e.toRat d.toRat) :
    f.toFloat = d.toFloat := by
  have he' : nearest? e.toRat = some r := by
    rw [← exactValue?_toFloat, he, exactValue?_toFloat, hd]
  have hnearest : nearest f.toRat = r := by
    have hmem := nearest_mono.mapsTo_uIcc hf
    rwa [nearest_eq_of_nearest? hd, nearest_eq_of_nearest? he', Set.uIcc_self,
      Set.mem_singleton_iff] at hmem
  have hf' : nearest? f.toRat = some r := by
    rw [← hnearest]
    rcases le_total e.toRat d.toRat with hle | hle
    · rw [Set.uIcc_of_le hle] at hf
      exact nearest?_of_abs_le hd (by rw [abs_of_nonneg f.toRat_nonneg]; exact hf.2)
    · rw [Set.uIcc_of_ge hle] at hf
      exact nearest?_of_abs_le he' (by rw [abs_of_nonneg f.toRat_nonneg]; exact hf.2)
  rw [← exactValue?_toFloat] at hd hf'
  exact eq_of_exactValue? hf' hd hr

/-- The fewest digits end no later than those of any decimal with the same float. -/
theorem exponent_le_exponent_shortest_of_toFloat {r : ℚ} (hd : nearest? d.toRat = some r)
    (hr : r ≠ 0) (he : e.toFloat = d.toFloat) (hlarge : 10 ^ e.exponent ≤ d.toRat) :
    e.exponent ≤ d.shortest.exponent := by
  rcases le_or_gt e.exponent d.exponent with hle | hlt
  · exact hle.trans d.exponent_le_exponent_shortest
  obtain ⟨dropped, hdropped⟩ := Int.le.dest hlt.le
  have hpos : 0 < dropped := by omega
  have hcount : dropped < d.digitCount := by
    have hunit : (0 : ℚ) < 10 ^ d.exponent := by positivity
    rw [toRat, ← hdropped, zpow_add₀ (by norm_num), mul_comm, zpow_natCast] at hlarge
    rw [← not_le, digitCount, digits, Nat.length_toDigits_le_iff (by norm_num) hpos, not_lt]
    exact_mod_cast le_of_mul_le_mul_right hlarge hunit
  obtain ⟨a, htruncate, hlower, hupper⟩ := d.truncate_bounds hcount.le
  rw [hdropped] at htruncate hlower hupper
  have hfound : (d.neighbour? (d.digitCount - dropped - 1 + 1)).isSome := by
    rw [Nat.sub_add_cancel (by omega)]
    apply isSome_neighbour?
    rw [htruncate]
    -- The other decimal ends at this place, so it lies beyond one of the two neighbours.
    have hplace : (0 : ℚ) < 10 ^ e.exponent := by positivity
    rcases le_or_gt e.coefficient a with hbelow | habove
    · left
      apply toFloat_eq_of_mem_uIcc hd hr he
      apply Set.mem_uIcc_of_le _ hlower
      apply mul_le_mul_of_nonneg_right _ hplace.le
      exact_mod_cast hbelow
    · right
      apply toFloat_eq_of_mem_uIcc hd hr he
      rw [toRat_succ]
      apply Set.mem_uIcc_of_ge hupper.le
      apply mul_le_mul_of_nonneg_right _ hplace.le
      exact_mod_cast habove
  obtain ⟨j, hj, f, hf, hsearch⟩ := exists_le_of_findSome?_range
    (f := fun dropped ↦ d.neighbour? (dropped + 1)) (m := d.digitCount) (by omega) hfound
  have hexponent := exponent_le_of_neighbour? hf
  rw [shortest, hsearch, Option.getD_some]
  omega

theorem toDigits_mul_ten_pow (hn : 0 < n) (k : ℕ) :
    Nat.toDigits 10 (n * 10 ^ k) = Nat.toDigits 10 n ++ List.replicate k '0' := by
  induction k with
  | zero => simp
  | succ k ih =>
    have hpos : 0 < n * 10 ^ k := by positivity
    have hlast := Nat.toDigits_append_toDigits (b := 10) (d := 0) (by norm_num) hpos (by norm_num)
    rw [List.replicate_succ', ← List.append_assoc, ← ih, pow_succ, ← mul_assoc, mul_comm _ 10,
      ← add_zero (10 * _), ← hlast, Nat.toDigits_zero]

theorem exponent_shortest_nonneg (hn : 0 < n) (hfloat : nearest? n = some (n : ℚ)) (k : ℕ) :
    0 ≤ (Decimal.mk (n * 10 ^ k) (-k)).shortest.exponent := by
  have hpos : (0 : ℚ) < n := by exact_mod_cast hn
  have hone : (1 : ℚ) ≤ n := by exact_mod_cast hn
  obtain ⟨d, hd⟩ : ∃ d, d = Decimal.mk (n * 10 ^ k) (-k) := ⟨_, rfl⟩
  have hrational : d.toRat = n := by
    rw [hd, toRat, zpow_neg, zpow_natCast]
    push_cast
    field_simp
  have hexact : exactValue? d.toFloat = some (n : ℚ) := by
    rw [exactValue?_toFloat, hrational, hfloat]
  have hwhole : exactValue? (Decimal.mk n 0).toFloat = some (n : ℚ) := by
    rw [exactValue?_toFloat, toRat, zpow_zero, mul_one, hfloat]
  rw [← hd]
  apply exponent_le_exponent_shortest_of_toFloat (e := ⟨n, 0⟩) _ hpos.ne'
    (eq_of_exactValue? hwhole hexact hpos.ne')
  · rwa [zpow_zero, hrational]
  · rw [hrational, hfloat]

theorem toRat_shortest_of_natural (hn : 0 < n) (hbound : n < 2 ^ 53) (k : ℕ) :
    (Decimal.mk (n * 10 ^ k) (-k)).shortest.toRat = n := by
  have hfloat := nearest?_natCast hbound.le
  have hexponent := exponent_shortest_nonneg hn hfloat k
  obtain ⟨e, he⟩ : ∃ e, e = (Decimal.mk (n * 10 ^ k) (-k)).shortest := ⟨_, rfl⟩
  rw [← he] at hexponent ⊢
  obtain ⟨w, hw⟩ : ∃ w : ℕ, e.toRat = w := by
    obtain ⟨j, hj⟩ := Int.eq_ofNat_of_zero_le hexponent
    refine ⟨e.coefficient * 10 ^ j, ?_⟩
    rw [toRat, hj, zpow_natCast]
    push_cast
    rfl
  have hsame : nearest? w = some (n : ℚ) := by
    rw [← hw, ← exactValue?_toFloat, he, toFloat_shortest, exactValue?_toFloat, toRat, zpow_neg,
      zpow_natCast, ← hfloat]
    congr 1
    push_cast
    field_simp
  rw [hw]
  rcases le_or_gt w (2 ^ 53) with hle | hgt
  · have hself : nearest? w = some (w : ℚ) :=
      nearest?_of_representable (representable_intCast (n := w) (by omega))
    exact Option.some.inj (hself.symm.trans hsame)
  · have hlarge : (2 : ℚ) ^ 53 ≤ w := by
      exact_mod_cast hgt.le
    have hmono := nearest_mono hlarge
    have hpower : Representable (2 ^ 53) := representable_intCast (n := 2 ^ 53) (by norm_num)
    rw [nearest_of_representable hpower, nearest_eq_of_nearest? hsame] at hmono
    exact absurd (by exact_mod_cast hmono) (not_le.mpr hbound)

theorem positional_shortest_of_natural (hn : 0 < n) (hbound : n < 2 ^ 53) (k : ℕ) :
    (Decimal.mk (n * 10 ^ k) (-k)).shortest.positional = Nat.toDigits 10 n := by
  have hrational := toRat_shortest_of_natural hn hbound k
  have hexponent := exponent_shortest_nonneg hn (nearest?_natCast hbound.le) k
  obtain ⟨e, he⟩ : ∃ e, e = (Decimal.mk (n * 10 ^ k) (-k)).shortest := ⟨_, rfl⟩
  rw [← he] at hrational hexponent ⊢
  obtain ⟨j, hj⟩ := Int.eq_ofNat_of_zero_le hexponent
  have hproduct : e.coefficient * 10 ^ j = n := by
    rw [toRat, hj, zpow_natCast] at hrational
    exact_mod_cast hrational
  have hpos : 0 < e.coefficient := by
    rw [Nat.pos_iff_ne_zero]
    intro hzero
    rw [hzero, zero_mul] at hproduct
    omega
  rw [positional, if_neg (not_lt.mpr hexponent), hj, Int.natAbs_natCast, digits,
    ← toDigits_mul_ten_pow hpos, hproduct]

/-! ### The decimal of a float that is a whole number -/

theorem exists_eq_of_toRat_eq_natural (h : d.toRat = n) (he : d.exponent ≤ 0) :
    ∃ k : ℕ, d = ⟨n * 10 ^ k, -k⟩ := by
  obtain ⟨k, hk⟩ : ∃ k : ℕ, d.exponent = -k := ⟨d.exponent.natAbs, by omega⟩
  refine ⟨k, ?_⟩
  have hcoefficient : d.coefficient = n * 10 ^ k := by
    rw [toRat, hk, zpow_neg, zpow_natCast, mul_inv_eq_iff_eq_mul₀ (by positivity)] at h
    exact_mod_cast h
  rw [← hk, ← hcoefficient]

end Decimal

/-- The plain text of a whole number is its numeral. -/
theorem plainText_of_integer {x : Float} {n : ℤ} (h : exactValue? x = some (n : ℚ)) (hne : n ≠ 0)
    (hbound : n.natAbs < 2 ^ 53) : plainText x = (Readout.whole n).text := by
  obtain ⟨s, d, hd, hvalue⟩ := exists_ofFloat_eq h
  obtain ⟨hwhole, hsign⟩ := eq_natAbs_of_signed d.toRat_nonneg hvalue
  obtain ⟨k, rfl⟩ := Decimal.exists_eq_of_toRat_eq_natural hwhole (exponent_nonpos_of_ofFloat hd)
  have hnegative : (s == .negative) = decide (n < 0) := by
    cases s with
    | negative =>
      have hminus : -(n.natAbs : ℤ) = n := hsign
      exact (decide_eq_true (by omega)).symm
    | positive =>
      have hplus : (n.natAbs : ℤ) = n := hsign
      exact (decide_eq_false (by omega)).symm
  rw [plainText, hd, hnegative, Readout.text, Readout.wholeText_eq, ExtendedDecimal.text,
    Decimal.positional_shortest_of_natural (by omega) hbound k]
  simp only [decide_eq_true_eq]

end PocketCalculator
