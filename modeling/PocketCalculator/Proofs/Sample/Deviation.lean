import PocketCalculator.Proofs.Float.SquareRoot
import PocketCalculator.Proofs.Sequencing
import PocketCalculator.Sample.Deviation

/-!
# When a deviation exists

Every step of a deviation is an operator that might refuse its operands. None does: the count of two
or more numbers and one less than it are above zero however large they are, and a sum of squares is
never below zero, not even where it is infinite or undefined. So only a sample of fewer than two
numbers has no deviation (`Sample.deviationBy_eq_error_iff`).
-/

namespace PocketCalculator

variable {raise : Float → Float → Float} {numbers : List Float} {n : ℕ} {x : Float} {q : ℚ}

/-! ### Counts -/

theorem exactValue?_one : exactValue? 1 = some 1 := by
  exact_mod_cast exactValue?_ofNat (n := 1) (by norm_num)

theorem zero_lt_ofNat (h : 1 ≤ n) : 0 < Float.ofNat n := by
  apply zero_lt_of_nonneg (nonneg_ofScientific n false 0).2
  show exactValue? (Float.ofNat n) ≠ some 0
  rw [exactValue?_ofNat_eq]
  intro hzero
  have hone : (1 : ℚ) ≤ nearest n := one_le_nearest (by exact_mod_cast h)
  rw [nearest_eq_of_nearest? hzero] at hone
  exact absurd hone (by norm_num)

/-- One less than a count of two or more is above zero, even where the count is rounded. -/
theorem zero_lt_ofNat_sub_one (h : 2 ≤ n) : 0 < Float.ofNat n - 1 := by
  cases hcount : exactValue? (Float.ofNat n) with
  | none =>
    -- The count is beyond the range of floats.
    rw [eq_infinity_of_zero_lt (zero_lt_ofNat (by omega)) hcount]
    decide +kernel
  | some q =>
    have htwo : 2 ≤ q := by
      rw [exactValue?_ofNat_eq] at hcount
      rw [← nearest_eq_of_nearest? hcount]
      exact_mod_cast natCast_le_nearest (n := 2) (q := n) (by norm_num) (by exact_mod_cast h)
    have hrange : nearest? (q - 1) = some (nearest (q - 1)) := by
      apply nearest?_of_abs_le (nearest?_of_representable (representable_of_exactValue? hcount))
      rw [abs_of_nonneg] <;> linarith
    have hvalue := (exactValue?_sub_eq hcount exactValue?_one).trans hrange
    have hone : 1 ≤ nearest (q - 1) := one_le_nearest (by linarith)
    rw [lt_iff_of_exactValue? exactValue?_zero hvalue]
    exact one_pos.trans_le hone

theorem exactValue?_ofNat_sub_one (hpos : 1 ≤ n) (hle : n ≤ 2 ^ 53) :
    exactValue? (Float.ofNat n - 1) = some (n - 1 : ℚ) := by
  apply exactValue?_sub (exactValue?_ofNat hle) exactValue?_one
  exact_mod_cast representable_intCast (n := (n : ℤ) - 1) (by omega)

namespace Sample

/-! ### The steps as arithmetic on floats -/

/-- The numbers added up from left to right. -/
def total (numbers : List Float) : Float :=
  numbers.foldl (· + ·) 0

def average (numbers : List Float) : Float :=
  total numbers / count numbers

/-- The squared differences from `center`, in the order of the numbers. -/
def squaresFrom (raise : Float → Float → Float) (center : Float) (numbers : List Float) :
    List Float :=
  numbers.map fun number ↦ raise (number - center) 2

/-- The squared differences from the average, added up and divided by one less than the count. -/
def spread (raise : Float → Float → Float) (numbers : List Float) : Float :=
  total (squaresFrom raise (average numbers) numbers) / (count numbers - 1)

theorem foldlM_add (start : Float) (numbers : List Float) :
    numbers.foldlM Operator.add.binaryValue start = .ok (numbers.foldl (· + ·) start) := by
  induction numbers generalizing start with
  | nil => rfl
  | cons x numbers ih => exact ih (start + x)

theorem foldlM_addSquareBy (raise : Float → Float → Float) (center : Float)
    (numbers : List Float) : numbers.foldlM (addSquareBy raise center) 0 =
      .ok (total (squaresFrom raise center numbers)) := by
  rw [total, squaresFrom, List.foldl_map]
  generalize (0 : Float) = start
  induction numbers generalizing start with
  | nil => rfl
  | cons x numbers ih => exact ih (start + raise (x - center) 2)

theorem mean_eq (h : 1 ≤ numbers.length) : mean numbers = .ok (average numbers) := by
  rw [mean, sum, foldlM_add, Except.ok_bind, Operator.binaryValue, count,
    beq_zero_eq_false (zero_lt_ofNat h)]
  rfl

theorem varianceBy_eq (h : 2 ≤ numbers.length) :
    varianceBy raise numbers = .ok (spread raise numbers) := by
  have hdegrees : Operator.subtract.binaryValue (count numbers) 1 = .ok (count numbers - 1) := rfl
  rw [varianceBy, mean_eq (by omega), Except.ok_bind, foldlM_addSquareBy, Except.ok_bind, hdegrees,
    Except.ok_bind, Operator.binaryValue, count, beq_zero_eq_false (zero_lt_ofNat_sub_one h)]
  rfl

/-- The root is the only step left that could fail. -/
theorem deviationBy_eq_ok (h : 2 ≤ numbers.length) (hspread : ¬ spread raise numbers < 0) :
    deviationBy raise numbers = .ok (raise (spread raise numbers) (1 / 2)) := by
  rw [deviationBy, if_neg (by omega), varianceBy_eq h]
  simp only [Operator.binaryValueBy, if_neg hspread]
  rfl

/-! ### No sum of squares is below zero -/

theorem not_foldl_add_lt_zero {start : Float} (hstart : ¬ start < 0) (h : ∀ x ∈ numbers, ¬ x < 0) :
    ¬ numbers.foldl (· + ·) start < 0 := by
  induction numbers generalizing start with
  | nil => exact hstart
  | cons x numbers ih =>
    obtain ⟨hx, hrest⟩ := List.forall_mem_cons.mp h
    exact ih (not_add_lt_zero hstart hx) hrest

theorem not_spread_lt_zero (hsquare : ∀ d, ¬ raise d 2 < 0) (h : 2 ≤ numbers.length) :
    ¬ spread raise numbers < 0 := by
  apply not_div_lt_zero _ (zero_lt_ofNat_sub_one h)
  apply not_foldl_add_lt_zero (by decide)
  intro square hsquares
  obtain ⟨number, -, rfl⟩ := List.mem_map.mp hsquares
  exact hsquare _

/-! ### Exact totals -/

/-- Numbers are added up exactly if each of their partial sums is the value of a float. -/
theorem exactValue?_foldl_add {start : Float} {values : List ℚ}
    (hstart : exactValue? start = some q)
    (hvalues : List.Forall₂ (fun x p ↦ exactValue? x = some p) numbers values)
    (hsums : ∀ k, Representable (q + (values.take k).sum)) :
    exactValue? (numbers.foldl (· + ·) start) = some (q + values.sum) := by
  induction hvalues generalizing start q with
  | nil => simpa using hstart
  | @cons x p numbers values hx hrest ih =>
    have hnext : Representable (q + p) := by simpa using hsums 1
    rw [List.foldl_cons, List.sum_cons, ← add_assoc]
    apply ih (exactValue?_add hstart hx hnext)
    intro k
    have hsum := hsums (k + 1)
    rwa [List.take_succ_cons, List.sum_cons, ← add_assoc] at hsum

theorem exactValue?_total {values : List ℚ}
    (hvalues : List.Forall₂ (fun x p ↦ exactValue? x = some p) numbers values)
    (hsums : ∀ k, Representable (values.take k).sum) :
    exactValue? (total numbers) = some values.sum := by
  have htotal := exactValue?_foldl_add exactValue?_zero hvalues (by simpa using hsums)
  rwa [zero_add] at htotal

/-! ### Samples with and without a deviation -/

theorem one_div_two : (1 / 2 : Float) = 0.5 := by
  decide +kernel

/-- A sample has no deviation exactly if it has fewer than two numbers, whatever the numbers are,
as long as no power computed as a square is below zero. Nor is the deviation below zero where roots
are computed as they should be: the root of a number of at least zero is at least zero, and the root
of the undefined number is undefined. -/
theorem deviationBy_eq_error_iff (hsquare : ∀ d, (raise d 2).isNaN ∨ 0 ≤ raise d 2)
    (numbers : List Float) :
    ((∃ e, deviationBy raise numbers = .error e) ↔ numbers.length < 2) ∧
      (numbers.length < 2 → deviationBy raise numbers = .error .tooFewNumbers) ∧
      (2 ≤ numbers.length → ∃ v, deviationBy raise numbers = .ok v ∧
        ((∀ w, 0 ≤ w → 0 ≤ raise w 0.5) → (∀ w, w.isNaN → (raise w 0.5).isNaN) →
          v.isNaN ∨ 0 ≤ v)) := by
  have hfew : numbers.length < 2 → deviationBy raise numbers = .error .tooFewNumbers :=
    fun hlength ↦ if_pos hlength
  have hmany : 2 ≤ numbers.length → ∃ v, deviationBy raise numbers = .ok v ∧
      ((∀ w, 0 ≤ w → 0 ≤ raise w 0.5) → (∀ w, w.isNaN → (raise w 0.5).isNaN) →
        v.isNaN ∨ 0 ≤ v) := by
    intro hlength
    have hspread := not_spread_lt_zero (fun d ↦ not_lt_zero_iff.mpr (hsquare d)) hlength
    refine ⟨_, deviationBy_eq_ok hlength hspread, ?_⟩
    intro hroot hundefined
    rw [one_div_two]
    exact (not_lt_zero_iff.mp hspread).imp (hundefined _) (hroot _)
  refine ⟨⟨?_, fun hlength ↦ ⟨_, hfew hlength⟩⟩, hfew, hmany⟩
  rintro ⟨e, he⟩
  by_contra hlength
  obtain ⟨v, hv, -⟩ := hmany (not_lt.mp hlength)
  rw [hv] at he
  cases he

/-- The sum is infinite, and so are the differences from the average. -/
theorem exists_deviationBy_of_huge_numbers :
    (∀ d, (squareOrRoot d 2).isNaN ∨ 0 ≤ squareOrRoot d 2) ∧
      (∀ v, 0 ≤ v → 0 ≤ squareOrRoot v 0.5) ∧
      (∀ v, v.isNaN → (squareOrRoot v 0.5).isNaN) ∧
      ∃ v, deviationBy squareOrRoot [1.5e308, -3, 1e308] = .ok v ∧ (v.isNaN ∨ 0 ≤ v) := by
  have hsquare : ∀ d, (squareOrRoot d 2).isNaN ∨ 0 ≤ squareOrRoot d 2 := by
    intro d
    rw [squareOrRoot_two]
    exact not_lt_zero_iff.mp (not_mul_self_lt_zero d)
  have hroot : ∀ v, 0 ≤ v → 0 ≤ squareOrRoot v 0.5 := by
    intro v hv
    rw [squareOrRoot_half]
    exact sqrt_nonneg hv
  have hundefined : ∀ v, v.isNaN → (squareOrRoot v 0.5).isNaN := by
    intro v hv
    rw [squareOrRoot_half]
    exact isNaN_sqrt hv
  refine ⟨hsquare, hroot, hundefined, ?_⟩
  obtain ⟨v, hdeviation, hsign⟩ :=
    (deviationBy_eq_error_iff hsquare [1.5e308, -3, 1e308]).2.2 (by decide)
  exact ⟨v, hdeviation, hsign hroot hundefined⟩

end Sample

end PocketCalculator
