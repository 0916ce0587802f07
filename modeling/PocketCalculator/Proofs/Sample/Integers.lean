import PocketCalculator.Proofs.Sample.Deviation

/-!
# Samples of integers

Where a sample consists of integers with an integer as their mean, and nothing on the way exceeds
`2 ^ 53`, each step of a deviation is exact until the sum of the squared differences is divided:
only this division and the root round (`Sample.deviationBy_integers`).
-/

namespace PocketCalculator

namespace Sample

variable {raise : Float → Float → Float} {numbers : List Float} {integers : List ℤ} {center : ℤ}
  {y : Float}

/-- Each number is the integer at its place. -/
def AreIntegers (numbers : List Float) (integers : List ℤ) : Prop :=
  List.Forall₂ (fun x a ↦ exactValue? x = some ((a : ℤ) : ℚ)) numbers integers

def squaredDifferences (center : ℤ) (integers : List ℤ) : List ℤ :=
  integers.map fun a ↦ (a - center) ^ 2

/-- The numbers of a sample are integers and `center` is their mean. Neither their count nor a sum
of the first of them nor the sum of the squared differences exceeds `2 ^ 53`. -/
structure IsIntegerSample (numbers : List Float) (integers : List ℤ) (center : ℤ) : Prop where
  areIntegers : AreIntegers numbers integers
  two_le_length : 2 ≤ numbers.length
  length_le : numbers.length ≤ 2 ^ 53
  sum_eq : integers.sum = numbers.length * center
  sum_take_le : ∀ k, (integers.take k).sum.natAbs ≤ 2 ^ 53
  squares_le : (squaredDifferences center integers).sum ≤ 2 ^ 53

/-- The square of an integer is exact if it is not too large. -/
def SquaresIntegers (raise : Float → Float → Float) : Prop :=
  ∀ (d : Float) (a : ℤ), exactValue? d = some (a : ℚ) → a ^ 2 ≤ 2 ^ 53 →
    exactValue? (raise d 2) = some ((a : ℚ) ^ 2)

theorem squaredDifferences_nonneg : ∀ b ∈ squaredDifferences center integers, 0 ≤ b := by
  intro b hb
  obtain ⟨a, -, rfl⟩ := List.mem_map.mp hb
  exact sq_nonneg _

namespace AreIntegers

theorem exactValue?_total (h : AreIntegers numbers integers)
    (hsums : ∀ k, (integers.take k).sum.natAbs ≤ 2 ^ 53) :
    exactValue? (total numbers) = some (integers.sum : ℚ) := by
  have hvalues : List.Forall₂ (fun x q ↦ exactValue? x = some q) numbers
      (integers.map fun a : ℤ ↦ (a : ℚ)) := List.forall₂_map_right_iff.mpr h
  have hrepresentable : ∀ k, Representable ((integers.map fun a : ℤ ↦ (a : ℚ)).take k).sum := by
    intro k
    rw [← List.map_take, ← Int.cast_list_sum]
    exact representable_intCast (hsums k)
  have htotal := Sample.exactValue?_total hvalues hrepresentable
  rwa [← Int.cast_list_sum] at htotal

theorem squaresFrom (h : AreIntegers numbers integers) (hsquare : SquaresIntegers raise)
    (hy : exactValue? y = some (center : ℚ))
    (hsquares : ∀ b ∈ squaredDifferences center integers, b ≤ 2 ^ 53) :
    AreIntegers (squaresFrom raise y numbers) (squaredDifferences center integers) := by
  induction h with
  | nil => exact .nil
  | @cons x a numbers integers hx hrest ih =>
    obtain ⟨hfirst, hmore⟩ := List.forall_mem_cons.mp hsquares
    refine .cons ?_ (ih hmore)
    have hbound : (a - center).natAbs ≤ 2 ^ 53 := by
      exact_mod_cast (Int.natAbs_le_self_sq (a - center)).trans hfirst
    have hdifference : exactValue? (x - y) = some ((a - center : ℤ) : ℚ) := by
      have hvalue := exactValue?_sub hx hy (by exact_mod_cast representable_intCast hbound)
      exact_mod_cast hvalue
    rw [Int.cast_pow]
    exact hsquare _ _ hdifference hfirst

end AreIntegers

namespace IsIntegerSample

variable (h : IsIntegerSample numbers integers center)
include h

theorem one_le_degrees : (1 : ℚ) ≤ numbers.length - 1 := by
  have hlength : (2 : ℚ) ≤ numbers.length := by
    exact_mod_cast h.two_le_length
  linarith

theorem exactValue?_average : exactValue? (average numbers) = some (center : ℚ) := by
  have hlength : (numbers.length : ℚ) ≠ 0 := by
    linarith [h.one_le_degrees]
  have hquotient : (integers.sum : ℚ) / numbers.length = center := by
    rw [h.sum_eq, Int.cast_mul, Int.cast_natCast, mul_div_cancel_left₀ _ hlength]
  have hcenter : center.natAbs ≤ 2 ^ 53 := by
    have hsum := h.sum_take_le integers.length
    rw [List.take_length, h.sum_eq, Int.natAbs_mul, Int.natAbs_natCast] at hsum
    exact (Nat.le_mul_of_pos_left _ (by linarith [h.two_le_length])).trans hsum
  have htotal := h.areIntegers.exactValue?_total h.sum_take_le
  have haverage := exactValue?_div htotal (exactValue?_ofNat h.length_le) hlength
    (by rw [hquotient]; exact representable_intCast hcenter)
  rwa [hquotient] at haverage

theorem exactValue?_total_squares (hsquare : SquaresIntegers raise) :
    exactValue? (total (squaresFrom raise (average numbers) numbers)) =
      some ((squaredDifferences center integers).sum : ℚ) := by
  have hnonneg : ∀ b ∈ squaredDifferences center integers, 0 ≤ b := squaredDifferences_nonneg
  have hsquares := h.areIntegers.squaresFrom hsquare h.exactValue?_average fun b hb ↦
    (List.single_le_sum hnonneg b hb).trans h.squares_le
  apply hsquares.exactValue?_total
  intro k
  have hpartial := (List.take_sublist k _).sum_le_sum hnonneg
  have hpos := List.sum_nonneg fun b hb ↦ hnonneg b (List.mem_of_mem_take (i := k) hb)
  have hle := h.squares_le
  omega

end IsIntegerSample

/-- The deviation of integers is exact up to its last two steps: it is the root of the float that is
nearest to the sum of the squared differences divided by one less than the count. -/
theorem deviationBy_integers (hsquare : SquaresIntegers raise)
    (h : IsIntegerSample numbers integers center) :
    ∃ v, exactValue? v =
        some (nearest ((squaredDifferences center integers).sum / (numbers.length - 1))) ∧
      deviationBy raise numbers = .ok (raise v 0.5) := by
  have htotal := h.exactValue?_total_squares hsquare
  have hdegrees := exactValue?_ofNat_sub_one (by linarith [h.two_le_length]) h.length_le
  have hone := h.one_le_degrees
  have hsum : (0 : ℚ) ≤ (squaredDifferences center integers).sum := by
    exact_mod_cast List.sum_nonneg squaredDifferences_nonneg
  have hquotient := div_nonneg hsum (one_pos.le.trans hone)
  have hrange : nearest? ((squaredDifferences center integers).sum / (numbers.length - 1)) =
      some (nearest ((squaredDifferences center integers).sum / (numbers.length - 1))) := by
    apply nearest?_of_abs_le (nearest?_of_representable (representable_of_exactValue? htotal))
    rw [abs_of_nonneg hquotient]
    exact div_le_self hsum hone
  have hspread : exactValue? (spread raise numbers) = some (nearest _) :=
    (exactValue?_div_eq htotal hdegrees (one_pos.trans_le hone).ne').trans hrange
  refine ⟨_, hspread, ?_⟩
  rw [← one_div_two]
  apply deviationBy_eq_ok h.two_le_length
  rw [lt_iff_of_exactValue? hspread exactValue?_zero, not_lt]
  exact nearest_nonneg hquotient

/-- The sum of the numbers is near the bound, and `14 / 3` is no float. -/
theorem deviationBy_four_large_integers :
    SquaresIntegers squareOrRoot ∧
      IsIntegerSample [1999999999999999, 2000000000000000, 2000000000000003, 1999999999999998]
        [1999999999999999, 2000000000000000, 2000000000000003, 1999999999999998]
        2000000000000000 ∧
      ∃ v, exactValue? v = some (nearest (14 / 3)) ∧
        deviationBy squareOrRoot
            [1999999999999999, 2000000000000000, 2000000000000003, 1999999999999998] =
          .ok (squareOrRoot v 0.5) := by
  have hsquare : SquaresIntegers squareOrRoot := by
    intro d a hd ha
    have hfits : (a * a).natAbs ≤ 2 ^ 53 := by
      rw [← pow_two, Int.natAbs_pow]
      zify
      rwa [sq_abs]
    rw [squareOrRoot_two, pow_two]
    exact exactValue?_mul hd hd (by exact_mod_cast representable_intCast hfits)
  have hliteral : ∀ n : ℕ, n ≤ 2 ^ 53 → exactValue? (Float.ofNat n) = some ((n : ℤ) : ℚ) := by
    intro n hn
    rw [Int.cast_natCast]
    exact exactValue?_ofNat hn
  have hsample : IsIntegerSample
      [1999999999999999, 2000000000000000, 2000000000000003, 1999999999999998]
      [1999999999999999, 2000000000000000, 2000000000000003, 1999999999999998]
      2000000000000000 := by
    refine ⟨?_, by decide, by decide, by decide, ?_, by decide⟩
    · exact .cons (hliteral _ (by norm_num)) (.cons (hliteral _ (by norm_num))
        (.cons (hliteral _ (by norm_num)) (.cons (hliteral _ (by norm_num)) .nil)))
    · intro k
      rcases lt_or_ge k 4 with hk | hk
      · interval_cases k <;> decide
      · rw [List.take_of_length_le hk]
        decide
  obtain ⟨v, hv, hdeviation⟩ := deviationBy_integers hsquare hsample
  have hsum : (squaredDifferences 2000000000000000
      [1999999999999999, 2000000000000000, 2000000000000003, 1999999999999998]).sum = 14 := by
    decide
  have hdegrees : (((4 : ℕ) : ℚ) - 1) = 3 := by norm_num
  refine ⟨hsquare, hsample, v, ?_, hdeviation⟩
  rw [hsum, List.length_cons, List.length_cons, List.length_cons, List.length_singleton,
    hdegrees] at hv
  exact hv

end Sample

end PocketCalculator
