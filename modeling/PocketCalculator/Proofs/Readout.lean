import PocketCalculator.Proofs.Decimal.Value
import PocketCalculator.Readout

/-!
# The form of a readout

How a float is shown follows from its value (`Readout.ofFloat_cases`). It is shown as a whole number
exactly if its value is an integer within the limit of plain readouts
(`Readout.ofFloat_eq_whole_iff`), and then the text shown is the decimal numeral of that integer
(`Readout.text_whole`).
-/

namespace PocketCalculator

namespace Readout

variable {v : Float} {q : ℚ} {n : ℤ}

theorem exactValue?_plainLimit : exactValue? plainLimit = some (10 ^ 10) := by
  have hdata : plainLimit.toModel.unpack =
      .finite .positive (10 ^ 10 * 2 ^ 19) (-19) (by decide) := by
    rfl
  rw [exactValue?, hdata, unpackedValue?, signed]
  norm_num

theorem plainLimit_lt_abs_iff (h : exactValue? v = some q) :
    plainLimit < v.abs ↔ 10 ^ 10 < |q| :=
  lt_iff_of_exactValue? exactValue?_plainLimit (exactValue?_abs h)

theorem abs_intCast_le_limit_iff : |(n : ℚ)| ≤ 10 ^ 10 ↔ n.natAbs ≤ 10 ^ 10 := by
  rw [← Int.cast_abs, ← Nat.cast_natAbs]
  exact_mod_cast Iff.rfl

/-- The form of a readout follows from the value of the float. -/
theorem ofFloat_cases (h : exactValue? v = some q) :
    (10 ^ 10 < |q| ∧ ofFloat v = .scientific v) ∨
      (∃ n : ℤ, q = n ∧ n.natAbs ≤ 10 ^ 10 ∧ ofFloat v = .whole n) ∨
      (|q| ≤ 10 ^ 10 ∧ (∀ n : ℤ, q ≠ n) ∧ ofFloat v = .fraction (roundToPlaces v)) := by
  rw [ofFloat]
  by_cases hlimit : v.abs > plainLimit
  · exact .inl ⟨(plainLimit_lt_abs_iff h).mp hlimit, if_pos hlimit⟩
  · have hle : |q| ≤ 10 ^ 10 := not_lt.mp (mt (plainLimit_lt_abs_iff h).mpr hlimit)
    rw [if_neg hlimit]
    by_cases hwhole : isWholeNumber v
    · obtain ⟨n, hn⟩ := isWholeNumber_iff.mp hwhole
      obtain rfl : q = n := Option.some.inj (h.symm.trans hn)
      rw [if_pos hwhole, wholePart_eq hn]
      exact .inr (.inl ⟨n, rfl, abs_intCast_le_limit_iff.mp hle, rfl⟩)
    · refine .inr (.inr ⟨hle, ?_, if_neg hwhole⟩)
      rintro n rfl
      exact hwhole (isWholeNumber_iff.mpr ⟨n, h⟩)

theorem ofFloat_eq_whole_iff :
    ofFloat v = .whole n ↔ exactValue? v = some (n : ℚ) ∧ n.natAbs ≤ 10 ^ 10 := by
  constructor
  · intro h
    have hwhole : isWholeNumber v := by
      rw [ofFloat] at h
      split at h
      · cases h
      · split at h
        · assumption
        · cases h
    obtain ⟨m, hm⟩ := isWholeNumber_iff.mp hwhole
    obtain ⟨-, hform⟩ | ⟨k, hk, hle, hform⟩ | ⟨-, -, hform⟩ := ofFloat_cases hm
    all_goals cases hform.symm.trans h
    exact ⟨hm.trans (congrArg some hk), hle⟩
  · rintro ⟨hvalue, hle⟩
    obtain ⟨hlt, -⟩ | ⟨k, hk, -, hform⟩ | ⟨-, hfraction, -⟩ := ofFloat_cases hvalue
    · exact absurd (abs_intCast_le_limit_iff.mpr hle) (not_le.mpr hlt)
    · rw [hform, Int.cast_injective hk]
    · exact absurd rfl (hfraction n)

/-! ### The text -/

theorem wholeText_eq (n : ℤ) :
    wholeText n = (if n < 0 then ['-'] else []) ++ Nat.toDigits 10 n.natAbs := by
  simp [wholeText, ExtendedDecimal.text, Decimal.positional, Decimal.digits]

theorem text_whole (n : ℤ) : (Readout.whole n).text = toString n := by
  rw [Readout.text, wholeText_eq]
  cases n with
  | ofNat n =>
    show String.ofList (Nat.toDigits 10 n) = n.repr
    rw [Nat.repr_eq_ofList_toDigits]
  | negSucc n =>
    show String.ofList ((if Int.negSucc n < 0 then ['-'] else []) ++ Nat.toDigits 10 (n + 1)) =
      "-" ++ (n + 1).repr
    rw [Nat.repr_eq_ofList_toDigits, if_pos (Int.negSucc_lt_zero n), String.ofList_append]

end Readout

end PocketCalculator
