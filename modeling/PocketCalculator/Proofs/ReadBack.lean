import PocketCalculator.Proofs.Decimal.Places
import PocketCalculator.Proofs.Decimal.Spelling
import PocketCalculator.Proofs.Expression.Spacing
import PocketCalculator.Proofs.Postfix.TreeEvaluation
import PocketCalculator.Proofs.Readout

/-!
# Calculating what is shown

The text of a number is an expression: a numeral, or a numeral behind a minus, which subtracts it
from zero. So calculating a text with the digits of a float gives the nearest float again, and the
text of a result within the limit of plain readouts is calculated to the value shown
(`calculate_text_ofFloat`).
-/

namespace PocketCalculator

open Float.Model.UnpackedFloat

variable {m d : Decimal} {q : ℚ} {x v : Float}

/-! ### Numerals with a sign -/

/-- The float that a numeral with a sign is calculated to. A minus subtracts from zero. -/
def writtenValue (s : Sign) (d : Decimal) : Float :=
  match s with
  | .negative => 0 - d.toFloat
  | .positive => d.toFloat

theorem exactValue?_writtenValue (s : Sign) (d : Decimal) :
    exactValue? (writtenValue s d) = (nearest? d.toRat).map (signed s) := by
  cases s with
  | negative => rw [writtenValue, exactValue?_zero_sub, d.exactValue?_toFloat]; rfl
  | positive => rw [writtenValue, d.exactValue?_toFloat]; exact Option.map_id'.symm

theorem calculate_text (layout : Decimal → List Char) (h : Spells (layout m) d) (s : Sign) :
    calculate (String.ofList ((ExtendedDecimal.finite (s == .negative) m).text layout)) =
      Postfix.conclude [writtenValue s d] := by
  have hvalue := h.value_eq
  cases s with
  | negative =>
    have htext : (ExtendedDecimal.finite (Sign.negative == .negative) m).text layout =
        '-' :: layout m := rfl
    have hconverted :
        Postfix.ofInfix [.operator .subtract, .number (String.ofList (layout m))] =
          .ok [.number "0", .number (String.ofList (layout m)), .operator .subtract] := rfl
    have hzero : (Token.number "0").value = .ok 0 := rfl
    rw [htext, calculate, Postfix.ofExpression, tokenize_minus_numeral h.isNumeral, hconverted,
      Except.ok_bind]
    simp only [Postfix.evaluate, Postfix.run_cons, Postfix.push, Postfix.reduce, hvalue, hzero,
      Postfix.run_nil]
    rfl
  | positive =>
    have htext : (ExtendedDecimal.finite (Sign.positive == .negative) m).text layout =
        layout m := rfl
    have hconverted : Postfix.ofInfix [.number (String.ofList (layout m))] =
        .ok [.number (String.ofList (layout m))] := rfl
    rw [htext, calculate, Postfix.ofExpression, tokenize_numeral h.isNumeral, hconverted,
      Except.ok_bind]
    simp only [Postfix.evaluate, Postfix.run_cons, Postfix.push, Postfix.reduce, hvalue,
      Postfix.run_nil]
    rfl

theorem calculate_zero : calculate "0" = .ok 0 := by
  decide +kernel

theorem Postfix.conclude_of_exactValue? (h : exactValue? v = some q) : conclude [v] = .ok v :=
  conclude_singleton_eq_ok_iff.mpr ⟨rfl, isFinite_of_exactValue? h⟩

/-- The text with the digits of a float is calculated to the float, except for a negative zero. -/
theorem calculate_plainText (h : x.isFinite) (hzero : x == 0 → x = 0) :
    calculate (plainText x) = .ok x := by
  obtain ⟨q, hq⟩ := isFinite_iff_exactValue?.mp h
  obtain ⟨s, d, hd, hsigned⟩ := exists_ofFloat_eq hq
  by_cases hne : q = 0
  · obtain rfl := hzero ((beq_iff_of_exactValue? hq exactValue?_zero).mpr hne)
    exact calculate_zero
  · obtain ⟨e, hspells, he⟩ := d.shortest.exists_spells_positional
    have hmagnitude : nearest? e.toRat = some d.toRat := by
      rw [he, ← d.shortest.exactValue?_toFloat, d.toFloat_shortest, d.exactValue?_toFloat]
      have hfloat := representable_of_exactValue? (exactValue?_abs hq)
      rw [hsigned, abs_signed, abs_of_nonneg d.toRat_nonneg] at hfloat
      exact nearest?_of_representable hfloat
    have hwritten : exactValue? (writtenValue s e) = some q := by
      rw [exactValue?_writtenValue, hmagnitude, hsigned]
      rfl
    have hcalculated := calculate_text (fun d ↦ d.shortest.positional) hspells s
    rw [plainText, hd, hcalculated, Postfix.conclude_of_exactValue? hwritten,
      eq_of_exactValue? hwritten hq hne]

/-! ### Results within the limit of plain readouts -/

namespace Readout

theorem calculate_text_whole {n : ℤ} (h : n.natAbs ≤ 2 ^ 53) :
    calculate (whole n).text = .ok (Float.ofInt n) := by
  rcases eq_or_ne n 0 with rfl | hne
  · exact calculate_zero
  · obtain ⟨s, hs⟩ : ∃ s : Sign, decide (n < 0) = (s == .negative) ∧ s.apply n.natAbs = n := by
      rcases hne.lt_or_gt with hlt | hgt
      · refine ⟨.negative, decide_eq_true hlt, ?_⟩
        show -(n.natAbs : ℤ) = n
        omega
      · refine ⟨.positive, decide_eq_false (not_lt.mpr hgt.le), ?_⟩
        show (n.natAbs : ℤ) = n
        omega
    obtain ⟨e, hspells, he⟩ := (Decimal.mk n.natAbs 0).exists_spells_positional
    have hmagnitude : nearest? e.toRat = some (n.natAbs : ℚ) := by
      rw [he, Decimal.toRat, zpow_zero, mul_one]
      exact nearest?_natCast h
    have hwritten : exactValue? (writtenValue s e) = some (n : ℚ) := by
      have hsigned := cast_apply s n.natAbs
      rw [hs.2, Int.cast_natCast] at hsigned
      rw [exactValue?_writtenValue, hmagnitude, hsigned]
      rfl
    have hcalculated := calculate_text Decimal.positional hspells s
    rw [text, wholeText, hs.1, hcalculated, Postfix.conclude_of_exactValue? hwritten,
      eq_of_exactValue? hwritten (exactValue?_ofInt h) (by exact_mod_cast hne)]

/-- What is shown within the limit of plain readouts is calculated to the value shown. -/
theorem calculate_text_ofFloat (hfinite : v.isFinite) (hlimit : v.abs ≤ plainLimit) :
    calculate (ofFloat v).text = .ok (ofFloat v).value := by
  obtain ⟨q, hq⟩ := isFinite_iff_exactValue?.mp hfinite
  have hle := (le_iff_of_exactValue? (exactValue?_abs hq) exactValue?_plainLimit).mp hlimit
  obtain ⟨hlt, -⟩ | ⟨n, -, hbound, hshown⟩ | ⟨-, -, hshown⟩ := ofFloat_cases hq
  · exact absurd hle (not_le.mpr hlt)
  · rw [hshown]
    exact calculate_text_whole (by omega)
  · rw [hshown]
    exact calculate_plainText (isFinite_of_exactValue? (exactValue?_roundToPlaces hle hq))
      roundToPlaces_eq_zero

/-- The text is `-2.345679`. -/
theorem calculate_text_negative_fraction :
    (-2.34567895 : Float).isFinite ∧ (-2.34567895 : Float).abs ≤ plainLimit ∧
      calculate (ofFloat (-2.34567895)).text = .ok (ofFloat (-2.34567895)).value := by
  have hfinite : (-2.34567895 : Float).isFinite := by decide
  have hlimit : (-2.34567895 : Float).abs ≤ plainLimit := by decide
  exact ⟨hfinite, hlimit, calculate_text_ofFloat hfinite hlimit⟩

end Readout

end PocketCalculator
