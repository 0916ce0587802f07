import PocketCalculator.Proofs.Decimal.Places

/-!
# Readouts are ordered like results

A number is shown with its exact value if it is a whole number or beyond the limit of plain
readouts, and rounded to decimal places otherwise. Rounding would leave the whole numbers within the
limit as they are, so all of them are rounded by one monotone function (`shownValue`), which does
not cross the limit. The value shown for the greater of two floats is never the lesser one
(`value_ofFloat_mono`).
-/

namespace PocketCalculator

namespace Readout

variable {q : ℚ} {v w : Float}

/-- The value that is shown for a number. -/
def shownValue (q : ℚ) : ℚ :=
  if 10 ^ 10 < |q| then q else toPlaces q

theorem shownValue_of_lt (h : 10 ^ 10 < |q|) : shownValue q = q :=
  if_pos h

theorem shownValue_of_le (h : |q| ≤ 10 ^ 10) : shownValue q = toPlaces q :=
  if_neg (not_lt.mpr h)

theorem exactValue?_value_ofFloat (h : exactValue? v = some q) :
    exactValue? (ofFloat v).value = some (shownValue q) := by
  obtain ⟨hlt, hshown⟩ | ⟨n, rfl, hle, hshown⟩ | ⟨hle, -, hshown⟩ := ofFloat_cases h
  · rw [hshown, shownValue_of_lt hlt]
    exact h
  · rw [hshown, shownValue_of_le (abs_intCast_le_limit_iff.mpr hle), toPlaces_intCast hle]
    exact exactValue?_ofInt (by omega)
  · rw [hshown, shownValue_of_le hle]
    exact exactValue?_roundToPlaces hle h

theorem shownValue_mono : Monotone shownValue := by
  intro p q h
  rcases lt_or_ge (10 ^ 10) |p| with hp | hp
  · rw [shownValue_of_lt hp]
    rcases lt_or_ge (10 ^ 10) |q| with hq | hq
    · rwa [shownValue_of_lt hq]
    · -- Only one number is beyond the limit, and that is the lesser.
      have hplaces := abs_le.mp (abs_toPlaces_le hq)
      rw [shownValue_of_le hq]
      rcases lt_abs.mp hp with hp | hp
      · linarith [le_of_abs_le hq]
      · linarith
  · rw [shownValue_of_le hp]
    rcases lt_or_ge (10 ^ 10) |q| with hq | hq
    · have hplaces := abs_le.mp (abs_toPlaces_le hp)
      rw [shownValue_of_lt hq]
      rcases lt_abs.mp hq with hq | hq
      · linarith
      · linarith [neg_le_of_abs_le hp]
    · rw [shownValue_of_le hq]
      exact toPlaces_mono h

/-- Whatever the forms of two readouts are, their values are in the order of the results. -/
theorem value_ofFloat_mono (hv : v.isFinite) (hw : w.isFinite) (h : v ≤ w) :
    (ofFloat v).value ≤ (ofFloat w).value := by
  obtain ⟨p, hp⟩ := isFinite_iff_exactValue?.mp hv
  obtain ⟨q, hq⟩ := isFinite_iff_exactValue?.mp hw
  have hpq := (le_iff_of_exactValue? hp hq).mp h
  exact (le_iff_of_exactValue? (exactValue?_value_ofFloat hp) (exactValue?_value_ofFloat hq)).mpr
    (shownValue_mono hpq)

/-- The greatest fraction within the limit and the least number beyond it. -/
theorem value_ofFloat_le_across_limit :
    (9999999999.999998 : Float).isFinite ∧ (10000000000.000002 : Float).isFinite ∧
      (9999999999.999998 : Float) ≤ 10000000000.000002 ∧
      (ofFloat 9999999999.999998).value ≤ (ofFloat 10000000000.000002).value := by
  have hbelow : (9999999999.999998 : Float).isFinite := by decide
  have habove : (10000000000.000002 : Float).isFinite := by decide
  have hle : (9999999999.999998 : Float) ≤ 10000000000.000002 := by decide
  exact ⟨hbelow, habove, hle, value_ofFloat_mono hbelow habove hle⟩

end Readout

end PocketCalculator
