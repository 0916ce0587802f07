import PocketCalculator.Arithmetic
import PocketCalculator.Proofs.Decimal.Value
import PocketCalculator.Proofs.Float.Sign

/-!
# Factorials

A factorial is a product of floats, taken factor by factor. From 171 on it is infinity, which no
further factor changes (`multiplyAll_infinity`). So nothing is lost where multiplying stops at
infinity, nor where the factors are counted in 64 bits only (`multiplyUp_eq_fullProduct`).
-/

namespace PocketCalculator

variable {x product : Float} {factors : List ℕ} {m n k count factor : ℕ}

/-! ### Products without a stop -/

def multiplyAll (product : Float) (factors : List ℕ) : Float :=
  factors.foldl (fun product factor ↦ product * Float.ofNat factor) product

/-- The product of all factors from 2 to `n`. -/
def fullProduct (n : ℕ) : Float :=
  multiplyAll 1 (List.range' 2 (n - 1))

/-- As a float the factor is a positive number. -/
def IsFactor (k : ℕ) : Prop :=
  ∃ q, exactValue? (Float.ofNat k) = some q ∧ 0 < q

theorem multiplyAll_cons :
    multiplyAll product (k :: factors) = multiplyAll (product * Float.ofNat k) factors :=
  rfl

theorem multiplyAll_append {more : List ℕ} :
    multiplyAll product (factors ++ more) = multiplyAll (multiplyAll product factors) more :=
  List.foldl_append

theorem isFactor_of_le (hn : Representable n) (hpos : 1 ≤ k) (hle : k ≤ n) : IsFactor k := by
  have hnearest : nearest? k = some (nearest k) := by
    apply nearest?_of_abs_le (nearest?_of_representable hn)
    rw [Nat.abs_cast]
    exact_mod_cast hle
  refine ⟨nearest k, (exactValue?_ofNat_eq k).trans hnearest, ?_⟩
  exact one_pos.trans_le (one_le_nearest (by exact_mod_cast hpos))

theorem forall_isFactor_of_le (hn : Representable n) (hle : m ≤ n) :
    ∀ k ∈ List.range' 2 (m - 1), IsFactor k := by
  intro k hk
  have hrange := List.mem_range'_1.mp hk
  exact isFactor_of_le hn (by omega) (by omega)

theorem multiplyAll_infinity (h : ∀ k ∈ factors, IsFactor k) :
    multiplyAll (1 / 0) factors = 1 / 0 := by
  induction factors with
  | nil => rfl
  | cons k factors ih =>
    obtain ⟨⟨q, hvalue, hpos⟩, hrest⟩ := List.forall_mem_cons.mp h
    rw [multiplyAll_cons, infinity_mul hvalue hpos, ih hrest]

theorem hasSign_multiplyAll (hproduct : HasSign .positive product.toModel.unpack)
    (h : ∀ k ∈ factors, IsFactor k) :
    HasSign .positive (multiplyAll product factors).toModel.unpack := by
  induction factors generalizing product with
  | nil => exact hproduct
  | cons k factors ih =>
    obtain ⟨⟨q, hvalue, hpos⟩, hrest⟩ := List.forall_mem_cons.mp h
    exact ih (hasSign_mul hproduct hvalue hpos) hrest

theorem hasSign_one : HasSign .positive (1 : Float).toModel.unpack := by
  rfl

/-! ### Stopping at infinity -/

theorem multiplyUp_eq_multiplyAll (hproduct : HasSign .positive product.toModel.unpack)
    (h : ∀ k ∈ List.range' factor count, IsFactor k) :
    multiplyUp count factor product = multiplyAll product (List.range' factor count) := by
  induction count generalizing factor product with
  | zero => rfl
  | succ count ih =>
    rw [List.range'_succ] at h ⊢
    obtain ⟨⟨q, hvalue, hpos⟩, hrest⟩ := List.forall_mem_cons.mp h
    have hnext := hasSign_mul hproduct hvalue hpos
    rw [multiplyAll_cons, multiplyUp_succ]
    split
    · next hinf =>
      rw [eq_infinity_of_not_isFinite hnext (not_isFinite_iff.mpr (.inr hinf)),
        multiplyAll_infinity hrest]
    · exact ih hnext hrest

/-- There is no multiplication after the first infinite product. -/
theorem length_runningProducts_le (hproduct : ¬ product.isInf)
    (hinf : (multiplyAll product (List.range' factor n)).isInf) :
    (runningProducts count factor product).length ≤ n := by
  induction count generalizing n factor product with
  | zero => exact Nat.zero_le n
  | succ count ih =>
    cases n with
    | zero => exact absurd hinf hproduct
    | succ n =>
      rw [List.range'_succ, multiplyAll_cons] at hinf
      simp only [runningProducts, List.length_cons]
      apply Nat.succ_le_succ
      split
      · exact Nat.zero_le n
      · next hnext => exact ih hnext hinf

/-! ### Where factorials become infinite -/

theorem fullProduct_eq_infinity_of_le (h : ∀ k ∈ List.range' 2 (n - 1), IsFactor k) (hle : m ≤ n)
    (hinfinite : (fullProduct m).isFinite = false) : fullProduct n = 1 / 0 := by
  have hsplit : List.range' 2 (n - 1) = List.range' 2 (m - 1) ++
      List.range' (2 + (m - 1)) (n - 1 - (m - 1)) := by
    rw [List.range'_append_1]
    congr 1
    omega
  rw [hsplit] at h
  obtain ⟨hbefore, hafter⟩ := List.forall_mem_append.mp h
  have hsign := hasSign_multiplyAll hasSign_one hbefore
  rw [fullProduct, hsplit, multiplyAll_append, eq_infinity_of_not_isFinite hsign hinfinite,
    multiplyAll_infinity hafter]

theorem fullProduct_succ (h : 1 ≤ n) :
    fullProduct (n + 1) = fullProduct n * Float.ofNat (n + 1) := by
  obtain ⟨m, rfl⟩ := Nat.exists_eq_add_of_le' h
  have hlast : List.range' 2 (m + 1) = List.range' 2 m ++ [m + 1 + 1] := by
    rw [List.range'_1_concat, Nat.add_comm 2 m]
  rw [fullProduct, Nat.add_sub_cancel, hlast, multiplyAll_append, fullProduct, Nat.add_sub_cancel]
  rfl

theorem fullProduct_170 : fullProduct 170 = 7.257415615307994e306 := by
  decide +kernel

theorem isInf_fullProduct_171 : (fullProduct 171).isInf := by
  rw [fullProduct_succ (by norm_num), fullProduct_170]
  decide +kernel

theorem isFinite_fullProduct (hle : n ≤ 170) : (fullProduct n).isFinite := by
  by_contra hinfinite
  have hrepresentable : Representable (170 : ℕ) :=
    representable_intCast (n := 170) (by norm_num)
  have hlast := fullProduct_eq_infinity_of_le (forall_isFactor_of_le hrepresentable le_rfl) hle
    (Bool.eq_false_iff.mpr hinfinite)
  rw [fullProduct_170] at hlast
  exact absurd hlast (by decide +kernel)

theorem fullProduct_eq_infinity (h : ∀ k ∈ List.range' 2 (n - 1), IsFactor k) (hle : 171 ≤ n) :
    fullProduct n = 1 / 0 :=
  fullProduct_eq_infinity_of_le h hle (not_isFinite_iff.mpr (.inr isInf_fullProduct_171))

/-! ### The operator -/

/-- What is no natural number: undefined and infinite values, numbers below zero and fractions. -/
def IsNonNatural (x : Float) : Prop :=
  x.isNaN ∨ x.isInf ∨ x < 0 ∨ ∃ q, exactValue? x = some q ∧ ∀ n : ℤ, q ≠ n

theorem not_lt_zero_of_natural (hn : exactValue? x = some (n : ℚ)) : ¬ x < 0 := by
  rw [lt_iff_of_exactValue? hn exactValue?_zero, not_lt]
  exact n.cast_nonneg

theorem exists_natural_of_not_lt_zero {n : ℤ} (hn : exactValue? x = some (n : ℚ))
    (hnonneg : ¬ x < 0) : ∃ k : ℕ, exactValue? x = some (k : ℚ) := by
  rw [lt_iff_of_exactValue? hn exactValue?_zero, not_lt, Int.cast_nonneg_iff] at hnonneg
  obtain ⟨k, rfl⟩ := Int.eq_ofNat_of_zero_le hnonneg
  exact ⟨k, hn⟩

theorem not_isNonNatural_iff : ¬ IsNonNatural x ↔ ∃ n : ℕ, exactValue? x = some (n : ℚ) := by
  constructor
  · intro h
    simp only [IsNonNatural, not_or, not_exists, not_and, not_forall, not_not] at h
    obtain ⟨hnan, hinf, hneg, hwhole⟩ := h
    have hfinite : x.isFinite := by
      by_contra hinfinite
      exact (not_isFinite_iff.mp (Bool.eq_false_iff.mpr hinfinite)).elim hnan hinf
    obtain ⟨q, hq⟩ := isFinite_iff_exactValue?.mp hfinite
    obtain ⟨n, rfl⟩ := hwhole q hq
    exact exists_natural_of_not_lt_zero hq hneg
  · rintro ⟨n, hn⟩ (hnan | hinf | hneg | ⟨q, hq, hfraction⟩)
    · exact not_isNaN_of_exactValue? hn hnan
    · exact Bool.eq_false_iff.mp (not_isFinite_iff.mpr (.inr hinf)) (isFinite_of_exactValue? hn)
    · exact not_lt_zero_of_natural hn hneg
    · exact hfraction n (Option.some.inj (hq.symm.trans hn))

theorem lastFactor_eq (hn : exactValue? x = some (n : ℚ)) : lastFactor x = min n (2 ^ 64 - 1) := by
  rw [lastFactor, wholePart_eq (n := n) hn, Int.toNat_natCast]
  rfl

theorem factorial_eq_ok (hn : exactValue? x = some (n : ℚ)) :
    factorial x = .ok (multiplyUp (lastFactor x - 1) 2 1) := by
  have hwhole : isWholeNumber x := isWholeNumber_iff.mpr ⟨n, hn⟩
  rw [factorial, if_neg]
  simp [not_lt_zero_of_natural hn, hwhole]

theorem factorial_eq_error_iff : factorial x = .error .factorialOfNonNatural ↔ IsNonNatural x := by
  constructor
  · intro h
    by_contra hnatural
    obtain ⟨n, hn⟩ := not_isNonNatural_iff.mp hnatural
    rw [factorial_eq_ok hn] at h
    cases h
  · intro h
    rw [factorial, if_pos]
    by_contra hcondition
    simp only [not_or, Bool.not_eq_true', Bool.not_eq_false] at hcondition
    obtain ⟨n, hn⟩ := isWholeNumber_iff.mp hcondition.2
    exact not_isNonNatural_iff.mpr (exists_natural_of_not_lt_zero hn hcondition.1) h

/-- Factors beyond 64 bits are not counted, and stopping at infinity leaves even more of them out.
The product is the same. -/
theorem multiplyUp_eq_fullProduct (hn : exactValue? x = some (n : ℚ)) :
    multiplyUp (lastFactor x - 1) 2 1 = fullProduct n := by
  have hlast := lastFactor_eq hn
  have hfactors : ∀ m ≤ n, ∀ k ∈ List.range' 2 (m - 1), IsFactor k :=
    fun m ↦ forall_isFactor_of_le (representable_of_exactValue? hn)
  have hcounted := hfactors (lastFactor x) (by omega)
  rw [multiplyUp_eq_multiplyAll hasSign_one hcounted, ← fullProduct]
  rcases le_or_gt n (2 ^ 64 - 1) with hle | hgt
  · rw [hlast, min_eq_left hle]
  · rw [fullProduct_eq_infinity hcounted (by omega),
      fullProduct_eq_infinity (hfactors n le_rfl) (by omega)]

/-- A factorial has no value exactly where the operand is no natural number. Everywhere else it is
the product of all factors, although the loop that computes it makes at most 170 products: from 171
on the product is infinite. -/
theorem Operator.unaryValue_factorial (x : Float) :
    (factorial.unaryValue x = .error .factorialOfNonNatural ↔ IsNonNatural x) ∧
    (¬ IsNonNatural x → ∃ n : ℕ, exactValue? x = some (n : ℚ) ∧
      factorial.unaryValue x = .ok (fullProduct n) ∧
      (n ≤ 170 → (fullProduct n).isFinite) ∧ (171 ≤ n → fullProduct n = 1 / 0) ∧
      (runningProducts (lastFactor x - 1) 2 1).getLastD 1 = fullProduct n ∧
      (runningProducts (lastFactor x - 1) 2 1).length ≤ 170) := by
  refine ⟨factorial_eq_error_iff, ?_⟩
  intro hnatural
  obtain ⟨n, hn⟩ := not_isNonNatural_iff.mp hnatural
  have hproduct := multiplyUp_eq_fullProduct hn
  refine ⟨n, hn, ?_, isFinite_fullProduct, ?_, ?_, ?_⟩
  · rw [← hproduct]
    exact factorial_eq_ok hn
  · exact fullProduct_eq_infinity (forall_isFactor_of_le (representable_of_exactValue? hn) le_rfl)
  · exact hproduct
  · exact length_runningProducts_le (by decide) isInf_fullProduct_171

/-- The operand does not fit into 64 bits. -/
theorem Operator.unaryValue_factorial_huge :
    ¬ IsNonNatural 1e300 ∧ factorial.unaryValue 1e300 = .ok (1 / 0) ∧
      (runningProducts (lastFactor 1e300 - 1) 2 1).length ≤ 170 := by
  have hlast : lastFactor 1e300 = 2 ^ 64 - 1 := by decide +kernel
  have hnatural : ¬ IsNonNatural 1e300 := by
    rw [← factorial_eq_error_iff, PocketCalculator.factorial, if_neg (by decide +kernel)]
    exact nofun
  obtain ⟨n, hn, hvalue, -, hinfinite, -, hlength⟩ := (unaryValue_factorial 1e300).2 hnatural
  have hlarge : 171 ≤ n := by
    rw [lastFactor_eq hn] at hlast
    omega
  exact ⟨hnatural, by rw [hvalue, hinfinite hlarge], hlength⟩

end PocketCalculator
