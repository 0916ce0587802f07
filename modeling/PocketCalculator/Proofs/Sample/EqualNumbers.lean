import PocketCalculator.Proofs.Sample.Deviation

/-!
# The deviation of equal numbers

Equal numbers do not deviate from their exact mean. The mean is computed from a running sum, though,
and rounding may carry it away from them: three times `0.1` has the mean `0.10000000000000002`. The
deviation of equal numbers is zero where the computed mean is the number, as it is if all multiples
of the number are floats; otherwise it is zero only if the squared difference underflows
(`Sample.deviationBy_replicate`).
-/

namespace PocketCalculator

variable {raise : Float → Float → Float} {n : ℕ} {x y square : Float} {q : ℚ}

namespace Sample

/-! ### Totals of equal numbers -/

theorem total_replicate_succ (n : ℕ) (x : Float) :
    total (List.replicate (n + 1) x) = total (List.replicate n x) + x := by
  rw [total, total, List.replicate_succ', List.foldl_concat]

/-- The running sum of equal numbers above zero grows by the smallest float at least. -/
theorem le_total_replicate (hpos : ∀ p, exactValue? x = some p → 0 < p) (hle : n ≤ 2 ^ 53)
    (htotal : exactValue? (total (List.replicate n x)) = some q) : n * 2 ^ (-1074 : ℤ) ≤ q := by
  induction n generalizing q with
  | zero =>
    obtain rfl : 0 = q := Option.some.inj (exactValue?_zero.symm.trans htotal)
    rw [Nat.cast_zero, zero_mul]
  | succ n ih =>
    rw [total_replicate_succ] at htotal
    obtain ⟨⟨p, hp⟩, r, hr⟩ := exists_of_exactValue?_add htotal
    have hbefore := ih (by omega) hp
    have hadded := (representable_of_exactValue? hr).two_zpow_le (hpos r hr)
    -- This bound is a float itself, so rounding does not cross it.
    have hself := nearest_eq_self_of_abs_le (n := (n + 1 : ℕ)) (e := -1074)
      (by rw [Nat.abs_cast]; exact_mod_cast hle) le_rfl
    rw [exactValue?_add_eq hp hr] at htotal
    rw [← nearest_eq_of_nearest? htotal]
    rw [Int.cast_natCast] at hself
    rw [← hself]
    apply nearest_mono
    rw [Nat.cast_succ, add_mul, one_mul]
    exact add_le_add hbefore hadded

theorem exactValue?_total_replicate (hx : exactValue? x = some q)
    (hmultiples : ∀ k ≤ n, Representable (k * q)) :
    exactValue? (total (List.replicate n x)) = some (n * q) := by
  have hvalues : List.Forall₂ (fun x p ↦ exactValue? x = some p) (List.replicate n x)
      (List.replicate n q) := by
    rw [List.forall₂_iff_get]
    simp [hx]
  have htotal := exactValue?_total hvalues (by
    intro k
    rw [List.take_replicate, List.sum_replicate, nsmul_eq_mul]
    exact hmultiples _ (min_le_right _ _))
  rwa [List.sum_replicate, nsmul_eq_mul] at htotal

/-! ### Spreads of equal numbers -/

theorem spread_replicate (raise : Float → Float → Float) (n : ℕ) (x : Float) :
    spread raise (List.replicate n x) =
      total (List.replicate n (raise (x - average (List.replicate n x)) 2)) /
        (Float.ofNat n - 1) := by
  rw [spread, squaresFrom, List.map_replicate, count, List.length_replicate]

theorem exactValue?_div_of_eq_zero (hn : 2 ≤ n) (h : exactValue? square = some 0) :
    exactValue? (total (List.replicate n square) / (Float.ofNat n - 1)) = some 0 := by
  have htotal := exactValue?_total_replicate (n := n) h (by simp [representable_zero])
  rw [mul_zero] at htotal
  exact exactValue?_zero_div htotal (zero_lt_ofNat_sub_one hn)

/-- Up to `2 ^ 53` numbers, a square that is not zero leaves its trace in the quotient. -/
theorem exactValue?_div_eq_zero_iff (hn : 2 ≤ n) (hle : n ≤ 2 ^ 53) (hsquare : ¬ square < 0) :
    exactValue? (total (List.replicate n square) / (Float.ofNat n - 1)) = some 0 ↔
      exactValue? square = some 0 := by
  refine ⟨fun hzero ↦ ?_, exactValue?_div_of_eq_zero hn⟩
  by_contra hne
  have hdegrees := exactValue?_ofNat_sub_one (by omega) hle
  have hpos : ∀ p, exactValue? square = some p → 0 < p := by
    intro p hp
    rw [lt_iff_of_exactValue? hp exactValue?_zero, not_lt] at hsquare
    apply hsquare.lt_of_ne
    rintro rfl
    exact hne hp
  cases htotal : exactValue? (total (List.replicate n square)) with
  | none =>
    rw [exactValue?_div_eq_none htotal hdegrees] at hzero
    cases hzero
  | some p =>
    have hone : (1 : ℚ) ≤ n - 1 := by
      have htwo : (2 : ℚ) ≤ n := by exact_mod_cast hn
      linarith
    have hquotient : 2 ^ (-1074 : ℤ) ≤ p / (n - 1) := by
      rw [le_div_iff₀ (by linarith), mul_comm]
      apply le_trans _ (le_total_replicate hpos hle htotal)
      exact mul_le_mul_of_nonneg_right (by linarith) (by positivity)
    rw [exactValue?_div_eq htotal hdegrees (by linarith)] at hzero
    exact (zero_lt_nearest hquotient).ne' (nearest_eq_of_nearest? hzero)

/-! ### Deviations of equal numbers -/

/-- What is known of powers with the exponents two and one half: a square is not below zero and is
exact where it is a float, and the root of what is not below zero is zero for a zero only. -/
structure HasSquaresAndRoots (raise : Float → Float → Float) : Prop where
  square_not_lt_zero : ∀ d, ¬ raise d 2 < 0
  square_exact : ∀ d q, exactValue? d = some q → Representable (q ^ 2) →
    exactValue? (raise d 2) = some (q ^ 2)
  root_beq_zero_iff : ∀ v, ¬ v < 0 → (raise v 0.5 == 0 ↔ v == 0)

theorem hasSquaresAndRoots_squareOrRoot : HasSquaresAndRoots squareOrRoot where
  square_not_lt_zero d := by
    rw [squareOrRoot_two]
    exact not_mul_self_lt_zero d
  square_exact d q hd hq := by
    rw [squareOrRoot_two]
    rw [pow_two] at hq ⊢
    exact exactValue?_mul hd hd hq
  root_beq_zero_iff v hv := by
    rw [squareOrRoot_half]
    exact sqrt_beq_zero_iff hv

variable (h : HasSquaresAndRoots raise)
include h

theorem HasSquaresAndRoots.exists_deviationBy {numbers : List Float}
    (hlength : 2 ≤ numbers.length) :
    ∃ v, deviationBy raise numbers = .ok v ∧
      (v == 0 ↔ exactValue? (spread raise numbers) = some 0) := by
  have hspread := not_spread_lt_zero h.square_not_lt_zero hlength
  refine ⟨_, Sample.deviationBy_eq_ok hlength hspread, ?_⟩
  rw [one_div_two, h.root_beq_zero_iff _ hspread, beq_zero_iff]

theorem HasSquaresAndRoots.exactValue?_square_eq_zero (hx : x == y) (hy : exactValue? y = some q) :
    exactValue? (raise (y - x) 2) = some 0 := by
  have hdifference : exactValue? (y - x) = some 0 := by
    have hvalue := exactValue?_sub_eq hy ((exactValue?_eq_of_beq hx).trans hy)
    rwa [sub_self, nearest?_of_representable representable_zero] at hvalue
  have hsquare := h.square_exact _ 0 hdifference (by simp [representable_zero])
  rwa [zero_pow two_ne_zero] at hsquare

/-- The deviation of equal numbers is zero where their computed mean is the number, and up to
`2 ^ 53` numbers it is zero only where the squared difference from that mean is zero. The computed
mean is the number if all multiples on the way to the sum are floats. -/
theorem deviationBy_replicate (hx : exactValue? x = some q) (hn : 2 ≤ n) :
    ∃ center v, mean (List.replicate n x) = .ok center ∧
      deviationBy raise (List.replicate n x) = .ok v ∧
      (center == x → v == 0) ∧
      (n ≤ 2 ^ 53 → (v == 0 ↔ raise (x - center) 2 == 0)) ∧
      (n ≤ 2 ^ 53 → (∀ k ≤ n, Representable (k * q)) → center == x) := by
  have hlength : 2 ≤ (List.replicate n x).length := by rwa [List.length_replicate]
  obtain ⟨v, hv, hzero⟩ := h.exists_deviationBy hlength
  rw [spread_replicate] at hzero
  refine ⟨_, v, mean_eq (by omega), hv, ?_, ?_, ?_⟩
  · intro hcenter
    exact hzero.mpr (exactValue?_div_of_eq_zero hn (h.exactValue?_square_eq_zero hcenter hx))
  · intro hle
    rw [hzero, exactValue?_div_eq_zero_iff hn hle (h.square_not_lt_zero _), beq_zero_iff]
  · intro hle hmultiples
    have hcount : (n : ℚ) ≠ 0 := by
      exact_mod_cast (by omega : n ≠ 0)
    have htotal := exactValue?_total_replicate hx hmultiples
    have haverage := exactValue?_div htotal (exactValue?_ofNat hle) hcount
      (by rw [mul_div_cancel_left₀ _ hcount]; exact representable_of_exactValue? hx)
    rw [average, count, List.length_replicate]
    rw [mul_div_cancel_left₀ _ hcount] at haverage
    exact (beq_iff_of_exactValue? haverage hx).mpr rfl

omit h

/-- Three times `3.5`, and three times `0.1`. -/
theorem deviationBy_replicate_three :
    HasSquaresAndRoots squareOrRoot ∧ 2 ≤ 3 ∧
      (∃ q, exactValue? 3.5 = some q ∧ ∀ k ≤ 3, Representable ((k : ℕ) * q)) ∧
      (∃ v, deviationBy squareOrRoot (List.replicate 3 3.5) = .ok v ∧ v == 0) ∧
      (∃ q, exactValue? 0.1 = some q) ∧
      ∃ v, deviationBy squareOrRoot (List.replicate 3 0.1) = .ok v ∧ ¬ v == 0 := by
  have hhalves : exactValue? 3.5 = some (7 * 2 ^ (-1 : ℤ)) := by
    have hunpack : (3.5 : Float).toModel.unpack =
        .finite .positive (7 * 2 ^ 50) (-51) (by norm_num) := by rfl
    rw [exactValue?, hunpack, unpackedValue?, signed]
    norm_num
  have hmultiples : ∀ k ≤ 3, Representable ((k : ℕ) * (7 * 2 ^ (-1 : ℤ))) := by
    intro k hk
    refine ⟨k * 7, -1, by omega, by norm_num, by norm_num, ?_⟩
    rw [abs_of_nonneg (by positivity)]
    push_cast
    ring
  obtain ⟨q, hq⟩ := isFinite_iff_exactValue?.mp (by decide +kernel : (0.1 : Float).isFinite)
  obtain ⟨center, v, -, hv, hzero, -, hcenter⟩ :=
    deviationBy_replicate hasSquaresAndRoots_squareOrRoot hhalves (n := 3) (by norm_num)
  obtain ⟨center', w, hmean, hw, -, hiff, -⟩ :=
    deviationBy_replicate hasSquaresAndRoots_squareOrRoot hq (n := 3) (by norm_num)
  refine ⟨hasSquaresAndRoots_squareOrRoot, by norm_num, ⟨_, hhalves, hmultiples⟩,
    ⟨v, hv, hzero (hcenter (by norm_num) hmultiples)⟩, ⟨q, hq⟩, w, hw, ?_⟩
  obtain rfl : 0.10000000000000002 = center' := by
    have haverage : mean (List.replicate 3 0.1) = .ok 0.10000000000000002 := by rfl
    exact Except.ok.inj (haverage.symm.trans hmean)
  rw [hiff (by norm_num)]
  decide +kernel

theorem unpack_difference_of_tenths :
    (0.1 - average (List.replicate 3 0.1)).toModel.unpack =
      .finite .negative (2 ^ 52) (-108) (by decide) := by
  rfl

/-- Three times `0.1`. -/
theorem not_forall_deviationBy_replicate_eq_zero :
    ¬ ∃ raise, HasSquaresAndRoots raise ∧
      ∀ (x : Float) (n : ℕ), x.isFinite → 2 ≤ n → (Float.ofNat n * x).isFinite →
        ∃ v, deviationBy raise (List.replicate n x) = .ok v ∧ v == 0 := by
  rintro ⟨raise, h, hall⟩
  obtain ⟨v, hv, hzero⟩ := hall 0.1 3 (by decide +kernel) (by decide) (by decide +kernel)
  have hlength : 2 ≤ (List.replicate 3 (0.1 : Float)).length := by decide
  obtain ⟨w, hw, hspread⟩ := h.exists_deviationBy hlength
  obtain rfl : v = w := Except.ok.inj (hv.symm.trans hw)
  rw [hspread, spread_replicate,
    exactValue?_div_eq_zero_iff (by norm_num) (by norm_num) (h.square_not_lt_zero _)] at hzero
  have hdifference :
      exactValue? (0.1 - average (List.replicate 3 0.1)) = some (-2 ^ (-56 : ℤ)) := by
    rw [exactValue?, unpack_difference_of_tenths, unpackedValue?, signed]
    norm_num
  have hrepresentable : Representable ((-2 ^ (-56 : ℤ)) ^ 2) :=
    ⟨1, -112, by norm_num, by norm_num, by norm_num, by norm_num⟩
  rw [h.square_exact _ _ hdifference hrepresentable] at hzero
  norm_num at hzero

end Sample

end PocketCalculator
