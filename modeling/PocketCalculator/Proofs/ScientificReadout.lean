import PocketCalculator.Proofs.ExponentPadding
import PocketCalculator.Proofs.FractionReadout

/-!
# Great numbers calculated again

A number shown with three digits and a power of ten is calculated to the float nearest to these
digits, which is close enough to them to be shown by the same three digits. Two texts are different
(`shownText_shownText_of_scientific`): the limit of plain readouts itself, to which numbers slightly
above it are rounded, is shown in full, and the greatest floats are rounded to three digits that lie
beyond the range of floats.
-/

namespace PocketCalculator

open Float.Model.UnpackedFloat

variable {expression : String} {s t : Sign} {c c' : ℕ} {j j' : ℤ} {d : Decimal} {q r : ℚ}
  {v w : Float}

/-! ### Three digits above the limit of plain readouts -/

theorem le_exponent_of_near (hupper : c ≤ 999) (hnear : |q - c * 10 ^ j| ≤ 10 ^ j / 2)
    (hq : 10 ^ 10 < q) : 8 ≤ j := by
  by_contra hlt
  have hpow : (0 : ℚ) < 10 ^ j := by positivity
  have hplace : (10 : ℚ) ^ j ≤ 10 ^ (7 : ℤ) := zpow_le_zpow_right₀ (by norm_num) (by omega)
  have hproduct : c * (10 : ℚ) ^ j ≤ 999 * 10 ^ j := by
    apply mul_le_mul_of_nonneg_right _ hpow.le
    exact_mod_cast hupper
  have hbound := (abs_le.mp hnear).2
  norm_num only at hq hplace
  linarith

theorem le_greatest_float : 179 * (10 : ℚ) ^ (306 : ℤ) ≤ (2 ^ 53 - 1 : ℕ) * 2 ^ (971 : ℤ) := by
  rw [zpow_ofNat, zpow_ofNat, pow_mul 10 153 2, pow_succ 2 970, pow_mul 2 194 5]
  norm_num only

theorem ten_zpow_306 : (10 : ℚ) ^ (306 : ℤ) = 10 * 10 ^ (305 : ℤ) := by
  rw [← zpow_one_add₀ (by norm_num)]
  norm_num

/-- The three digits of a float end at place 306 or before, and there they are 180 at most. -/
theorem exponent_le_of_near (hlower : 100 ≤ c) (hnear : |q - c * 10 ^ j| ≤ 10 ^ j / 2)
    (hq : q < 2 ^ 1024) : j ≤ 305 ∨ j = 306 ∧ c ≤ 180 := by
  have hpow : (0 : ℚ) < 10 ^ j := by positivity
  have hsmall := hq.trans two_pow_1024_lt
  have hbound := (abs_le.mp hnear).1
  have hunit := ten_zpow_306
  have hpos : (0 : ℚ) < 10 ^ (305 : ℤ) := by positivity
  have hplace : j ≤ 306 := by
    by_contra hgt
    have hlarge : (10 : ℚ) ^ (306 + 1 : ℤ) ≤ 10 ^ j :=
      zpow_le_zpow_right₀ (by norm_num) (by omega)
    have hproduct : 100 * (10 : ℚ) ^ j ≤ c * 10 ^ j := by
      apply mul_le_mul_of_nonneg_right _ hpow.le
      exact_mod_cast hlower
    rw [zpow_add₀ (by norm_num), hunit, zpow_one] at hlarge
    generalize (10 : ℚ) ^ (305 : ℤ) = unit at hsmall hlarge hpos
    linarith only [hsmall, hbound, hproduct, hlarge, hpos]
  rcases hplace.lt_or_eq with hlt | rfl
  · exact .inl (by omega)
  · refine .inr ⟨rfl, ?_⟩
    by_contra hgt
    have hproduct : 181 * (10 : ℚ) ^ (306 : ℤ) ≤ c * 10 ^ (306 : ℤ) := by
      apply mul_le_mul_of_nonneg_right _ hpow.le
      exact_mod_cast not_le.mp hgt
    rw [hunit] at hproduct hbound
    generalize (10 : ℚ) ^ (305 : ℤ) = unit at hsmall hbound hproduct hpos
    linarith only [hsmall, hbound, hproduct, hpos]

theorem nearest?_greatest_digits : nearest? ((180 : ℕ) * 10 ^ (306 : ℤ)) = none := by
  have hpos : (0 : ℚ) < 10 ^ (305 : ℤ) := by positivity
  have hlarge := two_pow_1024_lt
  apply nearest?_of_two_pow_le
  rw [abs_of_pos (by positivity), ten_zpow_306, Nat.cast_ofNat]
  generalize (10 : ℚ) ^ (305 : ℤ) = unit at hpos hlarge ⊢
  generalize (2 : ℚ) ^ 1024 = bound at hlarge ⊢
  linarith only [hpos, hlarge]

/-- Up to 179 units of place 306, three digits are in the range of floats. -/
theorem nearest?_digits (hupper : c ≤ 999) (hrange : j ≤ 305 ∨ j = 306 ∧ c ≤ 179) :
    nearest? (c * 10 ^ j) = some (nearest (c * 10 ^ j)) := by
  have hmost : (c : ℚ) * 10 ^ j ≤ 179 * 10 ^ (306 : ℤ) := by
    rcases hrange with hj | ⟨rfl, hc⟩
    · have hplace : (10 : ℚ) ^ j ≤ 10 ^ (305 : ℤ) := zpow_le_zpow_right₀ (by norm_num) hj
      have hproduct : (c : ℚ) * 10 ^ j ≤ 999 * 10 ^ (305 : ℤ) := by
        apply mul_le_mul _ hplace (by positivity) (by norm_num)
        exact_mod_cast hupper
      have hpos : (0 : ℚ) < 10 ^ (305 : ℤ) := by positivity
      rw [ten_zpow_306]
      generalize (10 : ℚ) ^ (305 : ℤ) = unit at hproduct hpos ⊢
      linarith only [hproduct, hpos]
    · apply mul_le_mul_of_nonneg_right _ (by positivity)
      exact_mod_cast hc
  have hgreatest : Representable ((2 ^ 53 - 1 : ℕ) * 2 ^ (971 : ℤ)) :=
    ⟨2 ^ 53 - 1, 971, by norm_num, by norm_num, by norm_num, abs_of_nonneg (by positivity)⟩
  apply nearest?_of_abs_le (nearest?_of_representable hgreatest)
  rw [abs_of_nonneg (by positivity)]
  exact hmost.trans le_greatest_float

theorem abs_nearest_digits_sub_lt (hlower : 100 ≤ c) (hupper : c ≤ 999) (hj : 8 ≤ j) :
    |nearest (c * 10 ^ j) - c * 10 ^ j| < 10 ^ j / 20 := by
  have hpow : (0 : ℚ) < 10 ^ j := by positivity
  have hcast : (100 : ℚ) ≤ c := by exact_mod_cast hlower
  have hcast' : (c : ℚ) ≤ 999 := by exact_mod_cast hupper
  have hproduct : c * (10 : ℚ) ^ j ≤ 999 * 10 ^ j := mul_le_mul_of_nonneg_right hcast' hpow.le
  have hone : (1 : ℚ) ≤ 10 ^ j := one_le_zpow₀ (by norm_num) (by omega)
  have hproduct' : 100 * (10 : ℚ) ^ j ≤ c * 10 ^ j := mul_le_mul_of_nonneg_right hcast hpow.le
  have habs : |(c : ℚ) * 10 ^ j| = c * 10 ^ j := abs_of_nonneg (by positivity)
  have hnormal : (2 : ℚ) ^ (-1022 : ℤ) ≤ |(c : ℚ) * 10 ^ j| := by
    have hle : (2 : ℚ) ^ (-1022 : ℤ) ≤ 2 ^ (0 : ℤ) :=
      zpow_le_zpow_right₀ (by norm_num) (by norm_num)
    rw [zpow_zero] at hle
    rw [habs]
    linarith
  apply (abs_nearest_sub_le_div hnormal).trans_lt
  rw [habs, div_lt_div_iff₀ (by norm_num) (by norm_num)]
  norm_num only
  linarith

/-- Three digits above the limit of plain readouts are calculated to a number above it. -/
theorem lt_nearest_digits (hlower : 100 ≤ c) (hupper : c ≤ 999) (hj : 8 ≤ j)
    (hlimit : ¬ (c = 100 ∧ j = 8)) : 10 ^ 10 < nearest (c * 10 ^ j) := by
  have hnear := (abs_lt.mp (abs_nearest_digits_sub_lt hlower hupper hj)).1
  have hpow : (0 : ℚ) < 10 ^ j := by positivity
  rcases hj.eq_or_lt with rfl | hlt
  · have hcast : (101 : ℚ) ≤ c := by
      have hnat : 101 ≤ c := by omega
      exact_mod_cast hnat
    norm_num only at hnear ⊢
    linarith
  · have hplace : (10 : ℚ) ^ (9 : ℤ) ≤ 10 ^ j := zpow_le_zpow_right₀ (by norm_num) (by omega)
    have hproduct : 100 * (10 : ℚ) ^ j ≤ c * 10 ^ j := by
      apply mul_le_mul_of_nonneg_right _ hpow.le
      exact_mod_cast hlower
    norm_num only at hplace ⊢
    linarith

/-! ### The text of three digits -/

theorem Decimal.three_le_digitCount (he : d.exponent ≤ 0) (h : 100 ≤ d.toRat) :
    3 ≤ d.digitCount := by
  have hpow : (10 : ℚ) ^ d.exponent ≤ 1 := zpow_le_one_of_nonpos₀ (by norm_num) he
  have hcoefficient : (100 : ℚ) ≤ d.coefficient :=
    h.trans (mul_le_of_le_one_right (Nat.cast_nonneg _) hpow)
  exact (Decimal.lt_digitCount_iff (by norm_num)).mpr (by exact_mod_cast hcoefficient)

theorem signed_eq_signed_of_pos (hq : 0 < q) (hr : 0 ≤ r) (h : signed s q = signed t r) :
    s = t ∧ q = r := by
  have habs : |signed s q| = |signed t r| := by rw [h]
  rw [abs_signed, abs_signed, abs_of_pos hq, abs_of_nonneg hr] at habs
  refine ⟨?_, habs⟩
  subst habs
  cases s <;> cases t
  · rfl
  · have hneg : -q = q := h
    linarith
  · have hneg : q = -q := h
    linarith
  · rfl

/-- The text of a decimal of three digits, with a sign. -/
def scientificText (s : Sign) (d : Decimal) : String :=
  String.ofList ((ExtendedDecimal.finite (s == .negative) d).text fun e ↦
    e.normalized 3 ++ 'e' :: Readout.exponentText e.leadingPlace)

theorem Readout.text_scientific (h : ExtendedDecimal.ofFloat v = .finite (s == .negative) d) :
    (scientific v).text = scientificText s (d.roundDigits 3) := by
  rw [text_scientific_eq, h]
  rfl

/-- A float close to three digits is shown by them. -/
theorem Readout.text_scientific_of_near (hlower : 100 ≤ c) (hupper : c ≤ 999)
    (hv : exactValue? v = some (signed s q)) (hq : 100 ≤ q)
    (hnear : |q - c * 10 ^ j| < 10 ^ j / 20) :
    (scientific v).text = scientificText s ⟨c, j⟩ := by
  obtain ⟨t, d, hd, hvalue⟩ := exists_ofFloat_eq hv
  obtain ⟨rfl, rfl⟩ := signed_eq_signed_of_pos (by linarith) d.toRat_nonneg hvalue
  have hcount := d.three_le_digitCount (exponent_nonpos_of_ofFloat hd) hq
  rw [text_scientific hd, Decimal.roundDigits_eq_of_near hcount hlower hupper hnear]

theorem spells_three_digits (hlower : 100 ≤ c) (hupper : c ≤ 999) (j : ℤ) :
    Spells ((Decimal.mk c j).normalized 3 ++
      'e' :: Readout.exponentText (Decimal.mk c j).leadingPlace) ⟨c, j⟩ :=
  Decimal.spells_scientific (Decimal.digitCount_eq_three hlower hupper j)

theorem calculate_scientificText (hlower : 100 ≤ c) (hupper : c ≤ 999) (s : Sign) (j : ℤ) :
    calculate (scientificText s ⟨c, j⟩) = Postfix.conclude [writtenValue s ⟨c, j⟩] :=
  calculate_text (fun e ↦ e.normalized 3 ++ 'e' :: Readout.exponentText e.leadingPlace)
    (spells_three_digits hlower hupper j) s

/-- What is shown is a sign and three digits in the range from `1.00e+10` to `1.80e+308`. -/
theorem exists_shownText_of_scientific
    (h : Readout.ofExpression expression = .ok (.scientific v)) :
    ∃ (s : Sign) (c : ℕ) (j : ℤ), shownText expression = scientificText s ⟨c, j⟩ ∧ 100 ≤ c ∧
      c ≤ 999 ∧ 8 ≤ j ∧ (j ≤ 305 ∨ j = 306 ∧ c ≤ 180) := by
  obtain ⟨w, hw, hshown⟩ := Readout.exists_calculate_of_ofExpression h
  obtain ⟨q, hq⟩ := isFinite_iff_exactValue?.mp (isFinite_of_calculate hw)
  obtain ⟨hlarge, hform⟩ | ⟨n, -, -, hform⟩ | ⟨-, -, hform⟩ := Readout.ofFloat_cases hq
  all_goals cases hshown.trans hform
  have hsmall := (representable_of_exactValue? hq).abs_lt
  obtain ⟨s, d, hd, rfl⟩ := exists_ofFloat_eq hq
  rw [abs_signed, abs_of_nonneg d.toRat_nonneg] at hlarge hsmall
  have hcount := d.three_le_digitCount (exponent_nonpos_of_ofFloat hd) (by linarith)
  obtain ⟨c, j, hround, hlower, hupper, hnear⟩ := Decimal.exists_roundDigits_eq hcount
  refine ⟨s, c, j, ?_, hlower, hupper, le_exponent_of_near hupper hnear hlarge,
    exponent_le_of_near hlower hnear hsmall⟩
  rw [shownText_of_ofExpression h, ← hround, Readout.text_scientific hd]

theorem ofChars?_scientificText (hlower : 100 ≤ c) (hupper : c ≤ 999) (s : Sign) (j : ℤ) :
    ExtendedDecimal.ofChars? (scientificText s ⟨c, j⟩).toList =
      some (.finite (s == .negative) ⟨c, j⟩) := by
  have hspells := spells_three_digits hlower hupper j
  obtain ⟨first, rest, hlayout, hfirst⟩ := hspells.isNumeral.exists_cons
  have hread := hspells.readDecimal?_eq
  rw [hlayout] at hread
  rw [scientificText, String.toList_ofList, ExtendedDecimal.text, hlayout,
    ExtendedDecimal.ofChars?_signed _ hfirst, hread]
  rfl

/-- Different digits are shown differently, whatever their signs. -/
theorem scientificText_inj (hlower : 100 ≤ c) (hupper : c ≤ 999) (hlower' : 100 ≤ c')
    (hupper' : c' ≤ 999) (h : scientificText s ⟨c, j⟩ = scientificText t ⟨c', j'⟩) :
    c = c' ∧ j = j' := by
  have hread := ofChars?_scientificText hlower hupper s j
  rw [h, ofChars?_scientificText hlower' hupper', Option.some.injEq,
    ExtendedDecimal.finite.injEq, Decimal.mk.injEq] at hread
  exact ⟨hread.2.1.symm, hread.2.2.symm⟩

theorem scientificText_mem_iff (hlower : 100 ≤ c) (hupper : c ≤ 999) (hlower' : 100 ≤ c')
    (hupper' : c' ≤ 999) :
    scientificText s ⟨c, j⟩ ∈
        [scientificText .positive ⟨c', j'⟩, scientificText .negative ⟨c', j'⟩] ↔
      c = c' ∧ j = j' := by
  constructor
  · simp only [List.mem_cons, List.not_mem_nil, or_false]
    rintro (h | h) <;> exact scientificText_inj hlower hupper hlower' hupper' h
  · rintro ⟨rfl, rfl⟩
    cases s <;> simp

theorem mem_limit_texts_iff (hlower : 100 ≤ c) (hupper : c ≤ 999) :
    scientificText s ⟨c, j⟩ ∈ ["1.00e+10", "-1.00e+10"] ↔ c = 100 ∧ j = 8 := by
  show _ ∈ [scientificText .positive ⟨100, 8⟩, scientificText .negative ⟨100, 8⟩] ↔ _
  exact scientificText_mem_iff hlower hupper (by norm_num) (by norm_num)

theorem mem_greatest_texts_iff (hlower : 100 ≤ c) (hupper : c ≤ 999) :
    scientificText s ⟨c, j⟩ ∈ ["1.80e+308", "-1.80e+308"] ↔ c = 180 ∧ j = 306 := by
  show _ ∈ [scientificText .positive ⟨180, 306⟩, scientificText .negative ⟨180, 306⟩] ↔ _
  exact scientificText_mem_iff hlower hupper (by norm_num) (by norm_num)

/-! ### Shown again -/

/-- Any other three digits are shown again. -/
theorem shownText_scientificText (hlower : 100 ≤ c) (hupper : c ≤ 999) (hj : 8 ≤ j)
    (hlimit : ¬ (c = 100 ∧ j = 8)) (hrange : j ≤ 305 ∨ j = 306 ∧ c ≤ 179) :
    (∃ v, calculate (scientificText s ⟨c, j⟩) = .ok v) ∧
      shownText (scientificText s ⟨c, j⟩) = scientificText s ⟨c, j⟩ := by
  have hnear := abs_nearest_digits_sub_lt hlower hupper hj
  have hlarge := lt_nearest_digits hlower hupper hj hlimit
  have hvalue : exactValue? (writtenValue s ⟨c, j⟩) = some (signed s (nearest (c * 10 ^ j))) := by
    rw [exactValue?_writtenValue, Decimal.toRat, nearest?_digits hupper hrange]
    rfl
  have hcalculated : calculate (scientificText s ⟨c, j⟩) = .ok (writtenValue s ⟨c, j⟩) := by
    rw [calculate_scientificText hlower hupper, Postfix.conclude_of_exactValue? hvalue]
  refine ⟨⟨_, hcalculated⟩, ?_⟩
  have hgreat : (writtenValue s ⟨c, j⟩).abs > Readout.plainLimit := by
    rw [gt_iff_lt, Readout.plainLimit_lt_abs_iff hvalue, abs_signed]
    exact hlarge.trans_le (le_abs_self _)
  have hagain : Readout.ofExpression (scientificText s ⟨c, j⟩) =
      .ok (.scientific (writtenValue s ⟨c, j⟩)) := by
    rw [Readout.ofExpression, hcalculated]
    exact congrArg Except.ok (if_pos hgreat)
  rw [shownText_of_ofExpression hagain]
  exact Readout.text_scientific_of_near hlower hupper hvalue (by linarith) hnear

/-- The limit of plain readouts is shown in full. -/
theorem shownText_limit_digits (s : Sign) :
    (∃ w, calculate (scientificText s ⟨100, 8⟩) = .ok w) ∧
      shownText (scientificText s ⟨100, 8⟩) ≠ scientificText s ⟨100, 8⟩ := by
  cases s with
  | negative => exact ⟨⟨-1e10, by decide +kernel⟩, by decide +kernel⟩
  | positive => exact ⟨⟨1e10, by decide +kernel⟩, by decide +kernel⟩

/-- Three digits that a float is rounded to, and no float is near. -/
theorem calculate_greatest_digits (s : Sign) :
    calculate (scientificText s ⟨180, 306⟩) = .error .notFinite := by
  have hvalue : exactValue? (writtenValue s ⟨180, 306⟩) = none := by
    rw [exactValue?_writtenValue, Decimal.toRat, nearest?_greatest_digits, Option.map_none]
  rw [calculate_scientificText (by norm_num) (by norm_num),
    Postfix.conclude_singleton_eq_error_iff, Bool.eq_false_iff, ne_eq, isFinite_iff_exactValue?,
    hvalue]
  exact ⟨rfl, by simp⟩

theorem shownText_greatest_digits (s : Sign) :
    shownText (scientificText s ⟨180, 306⟩) ≠ scientificText s ⟨180, 306⟩ := by
  rw [shownText, Readout.ofExpression, calculate_greatest_digits]
  show CalculationError.notFinite.message ≠ _
  cases s <;> decide

/-- A number shown with a power of ten can be calculated again from its text unless that is the text
of the greatest floats, and the same text is shown again unless it is that or the text of the limit
of plain readouts. -/
theorem shownText_shownText_of_scientific
    (h : Readout.ofExpression expression = .ok (.scientific v)) :
    ((∃ w, calculate (shownText expression) = .ok w) ↔
      shownText expression ∉ ["1.80e+308", "-1.80e+308"]) ∧
    (shownText (shownText expression) = shownText expression ↔
      shownText expression ∉ ["1.00e+10", "-1.00e+10", "1.80e+308", "-1.80e+308"]) := by
  obtain ⟨s, c, j, htext, hlower, hupper, hj, hrange⟩ := exists_shownText_of_scientific h
  have hgreatest : scientificText s ⟨c, j⟩ ∈ ["1.80e+308", "-1.80e+308"] ↔ c = 180 ∧ j = 306 :=
    mem_greatest_texts_iff hlower hupper
  have heither : scientificText s ⟨c, j⟩ ∈
      ["1.00e+10", "-1.00e+10", "1.80e+308", "-1.80e+308"] ↔
        c = 100 ∧ j = 8 ∨ c = 180 ∧ j = 306 :=
    (List.mem_append (s := ["1.00e+10", "-1.00e+10"])).trans
      (or_congr (mem_limit_texts_iff hlower hupper) hgreatest)
  rw [htext, hgreatest, heither]
  by_cases hleast : c = 100 ∧ j = 8
  · obtain ⟨rfl, rfl⟩ := hleast
    obtain ⟨hcalculated, hother⟩ := shownText_limit_digits s
    exact ⟨iff_of_true hcalculated (by omega), iff_of_false hother (by omega)⟩
  by_cases hmost : c = 180 ∧ j = 306
  · obtain ⟨rfl, rfl⟩ := hmost
    exact ⟨iff_of_false (by simp [calculate_greatest_digits]) (by omega),
      iff_of_false (shownText_greatest_digits s) (by omega)⟩
  · obtain ⟨hcalculated, hshown⟩ := shownText_scientificText hlower hupper hj hleast (by omega)
    exact ⟨iff_of_true hcalculated hmost, iff_of_true hshown (by omega)⟩

theorem ofExpression_above_limit :
    Readout.ofExpression "10000000001" = .ok (.scientific 10000000001) := by
  decide +kernel

/-- The limit of plain readouts is shown in full: `10000000000`. -/
theorem shownText_shownText_above_limit :
    Readout.ofExpression "10000000001" = .ok (.scientific 10000000001) ∧
      ((∃ w, calculate (shownText "10000000001") = .ok w) ↔
        shownText "10000000001" ∉ ["1.80e+308", "-1.80e+308"]) ∧
      (shownText (shownText "10000000001") = shownText "10000000001" ↔
        shownText "10000000001" ∉ ["1.00e+10", "-1.00e+10", "1.80e+308", "-1.80e+308"]) :=
  ⟨ofExpression_above_limit, shownText_shownText_of_scientific ofExpression_above_limit⟩

theorem not_forall_shownText_scientific :
    ¬ ∀ expression v, Readout.ofExpression expression = .ok (.scientific v) →
      shownText (shownText expression) = shownText expression := by
  intro h
  have htext : shownText "10000000001" = scientificText .positive ⟨100, 8⟩ := by
    rw [shownText_of_ofExpression ofExpression_above_limit]
    rfl
  have hsame := h _ _ ofExpression_above_limit
  rw [htext] at hsame
  exact (shownText_limit_digits .positive).2 hsame

end PocketCalculator
