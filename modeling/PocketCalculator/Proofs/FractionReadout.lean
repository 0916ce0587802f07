import PocketCalculator.Proofs.Decimal.SecondRounding
import PocketCalculator.Proofs.Decimal.Shortest
import PocketCalculator.Proofs.ReadBack

/-!
# Fractions calculated again

A fraction that is shown is calculated to itself, and shown again it is rounded again. So the same
text is shown unless the second rounding finds other units (`shownText_shownText_of_fraction`).
Different fractions are shown differently, because each is calculated from its text.
-/

namespace PocketCalculator

variable {expression : String} {q : ℚ} {v x y : Float}

theorem isFinite_of_calculate (h : calculate expression = .ok v) : v.isFinite := by
  obtain ⟨tokens, -, hevaluate⟩ := Except.bind_eq_ok_iff.mp h
  obtain ⟨values, -, hconclude⟩ := Except.bind_eq_ok_iff.mp hevaluate
  unfold Postfix.conclude at hconclude
  split at hconclude
  · split at hconclude
    · next hfinite =>
      cases hconclude
      exact hfinite
    · cases hconclude
  · cases hconclude

theorem shownText_of_ofExpression {r : Readout} (h : Readout.ofExpression expression = .ok r) :
    shownText expression = r.text := by
  rw [shownText, h]
  rfl

namespace Readout

theorem exists_calculate_of_ofExpression {r : Readout} (h : ofExpression expression = .ok r) :
    ∃ v, calculate expression = .ok v ∧ r = ofFloat v := by
  rw [ofExpression] at h
  cases hv : calculate expression with
  | error e =>
    rw [hv] at h
    cases h
  | ok v =>
    rw [hv] at h
    exact ⟨v, rfl, (Except.ok.inj h).symm⟩

/-- A fraction shown is some number within the limit of plain readouts, rounded to seven places. -/
theorem exists_exactValue?_of_fraction (h : ofExpression expression = .ok (.fraction x)) :
    ∃ p, |p| ≤ 10 ^ 10 ∧ exactValue? x = some (toPlaces p) ∧ (x == 0 → x = 0) := by
  obtain ⟨v, hv, hshown⟩ := exists_calculate_of_ofExpression h
  obtain ⟨p, hp⟩ := isFinite_iff_exactValue?.mp (isFinite_of_calculate hv)
  obtain ⟨-, hform⟩ | ⟨n, -, -, hform⟩ | ⟨hlimit, -, hform⟩ := ofFloat_cases hp
  all_goals cases hshown.trans hform
  exact ⟨p, hlimit, exactValue?_roundToPlaces hlimit hp, roundToPlaces_eq_zero⟩

end Readout

theorem plainText_inj (hx : x.isFinite) (hy : y.isFinite) (hxzero : x == 0 → x = 0)
    (hyzero : y == 0 → y = 0) : plainText x = plainText y ↔ x = y := by
  constructor
  · intro h
    have hcalculated := calculate_plainText hx hxzero
    rw [h, calculate_plainText hy hyzero] at hcalculated
    exact (Except.ok.inj hcalculated).symm
  · rintro rfl
    rfl

theorem not_driftsUp_intCast (n : ℤ) : ¬ DriftsUp n := by
  rintro ⟨-, -, hquarter, -⟩
  have hproduct : |(n : ℚ)| * 10 ^ 7 = ((|n| * 10 ^ 7 : ℤ) : ℚ) := by
    push_cast
    rfl
  rw [hproduct, Int.fract_intCast] at hquarter
  norm_num at hquarter

namespace Readout

variable {p : ℚ}

theorem text_whole_eq_plainText {n : ℤ} (hx : exactValue? x = some (n : ℚ))
    (hbound : n.natAbs ≤ 10 ^ 10) (hzero : x == 0 → x = 0) : (whole n).text = plainText x := by
  rcases eq_or_ne n 0 with rfl | hne
  · obtain rfl := hzero ((beq_iff_of_exactValue? hx exactValue?_zero).mpr Int.cast_zero)
    rfl
  · rw [plainText_of_integer hx hne (by omega)]

theorem roundToPlaces_eq_self_iff (hx : exactValue? x = some q) (hlimit : |q| ≤ 10 ^ 10)
    (hq : q ≠ 0) : roundToPlaces x = x ↔ toPlaces q = q := by
  have hrounded := exactValue?_roundToPlaces hlimit hx
  constructor
  · intro h
    rw [h, hx] at hrounded
    exact (Option.some.inj hrounded).symm
  · intro h
    rw [h] at hrounded
    exact eq_of_exactValue? hrounded hx hq

/-- Shown again, a number rounded to seven places has the same text, unless it drifts up. -/
theorem text_ofFloat_eq_plainText_iff (hlimit : |p| ≤ 10 ^ 10)
    (hx : exactValue? x = some (toPlaces p)) (hzero : x == 0 → x = 0) :
    (ofFloat x).text = plainText x ↔ ¬ DriftsUp (toPlaces p) := by
  have hbound := abs_toPlaces_le hlimit
  obtain ⟨hlt, -⟩ | ⟨n, hn, hle, hform⟩ | ⟨-, hfraction, hform⟩ := ofFloat_cases hx
  · exact absurd hbound (not_le.mpr hlt)
  · rw [hn] at hx ⊢
    rw [hform]
    exact iff_of_true (text_whole_eq_plainText hx hle hzero) (not_driftsUp_intCast n)
  · have hrounded := exactValue?_roundToPlaces hbound hx
    rw [hform, text, plainText_inj (isFinite_of_exactValue? hrounded) (isFinite_of_exactValue? hx)
        roundToPlaces_eq_zero hzero,
      roundToPlaces_eq_self_iff hx hbound (by exact_mod_cast hfraction 0),
      toPlaces_toPlaces_iff hlimit hfraction]

end Readout

/-- A fraction that is shown is calculated to itself. The same text is shown again exactly if the
fraction does not drift up when it is rounded to seven places a second time. -/
theorem shownText_shownText_of_fraction
    (h : Readout.ofExpression expression = .ok (.fraction x)) :
    calculate (shownText expression) = .ok x ∧
      ∃ q, exactValue? x = some q ∧
        (shownText (shownText expression) = shownText expression ↔ ¬ DriftsUp q) := by
  obtain ⟨p, hlimit, hx, hzero⟩ := Readout.exists_exactValue?_of_fraction h
  have hcalculated := calculate_plainText (isFinite_of_exactValue? hx) hzero
  have hagain : Readout.ofExpression (plainText x) = .ok (.ofFloat x) := by
    rw [Readout.ofExpression, hcalculated]
    rfl
  rw [shownText_of_ofExpression h, Readout.text, shownText_of_ofExpression hagain]
  exact ⟨hcalculated, toPlaces p, hx, Readout.text_ofFloat_eq_plainText_iff hlimit hx hzero⟩

theorem ofExpression_drifting_fraction : Readout.ofExpression "300000000.00000167" =
    .ok (.fraction 300000000.0000017) := by
  decide +kernel

/-- The next seven places are shown: `300000000.0000018`. -/
theorem shownText_shownText_drifting_fraction :
    Readout.ofExpression "300000000.00000167" = .ok (.fraction 300000000.0000017) ∧
      calculate (shownText "300000000.00000167") = .ok 300000000.0000017 ∧
      ∃ q, exactValue? 300000000.0000017 = some q ∧
        (shownText (shownText "300000000.00000167") = shownText "300000000.00000167" ↔
          ¬ DriftsUp q) :=
  ⟨ofExpression_drifting_fraction, shownText_shownText_of_fraction ofExpression_drifting_fraction⟩

theorem not_forall_shownText_fraction :
    ¬ ∀ expression x, Readout.ofExpression expression = .ok (.fraction x) →
      shownText (shownText expression) = shownText expression := by
  intro h
  have hagain : Readout.ofExpression (Readout.fraction 300000000.0000017).text =
      .ok (.fraction 300000000.0000018) := by
    rw [Readout.text, Readout.ofExpression, calculate_plainText (by decide) (by decide)]
    rfl
  have htexts := h _ _ ofExpression_drifting_fraction
  rw [shownText_of_ofExpression ofExpression_drifting_fraction,
    shownText_of_ofExpression hagain, Readout.text, Readout.text,
    plainText_inj (by decide) (by decide) (by decide) (by decide)] at htexts
  exact absurd htexts (by decide)

end PocketCalculator
