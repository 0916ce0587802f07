import PocketCalculator.Decimal.Notation
import PocketCalculator.Proofs.Decimal.Value
import PocketCalculator.Proofs.Expression.Digits
import PocketCalculator.Readout

/-!
# Numerals that are written for decimals

A decimal laid out as a numeral is read as a decimal of the same value: with the point among its
digits (`Decimal.exists_spells_positional`), and with one digit before the point and an exponent
(`Decimal.spells_scientific`).
-/

namespace PocketCalculator

open Numeral (IsDigits)

variable {d : Decimal}

/-! ### The point among the digits -/

namespace Decimal

theorem isDigits_digits (d : Decimal) : IsDigits d.digits :=
  isDigits_toDigits _

theorem ofDigitChars_digits (d : Decimal) : Nat.ofDigitChars 10 d.digits 0 = d.coefficient :=
  Nat.ofDigitChars_ten_toDigits

/-- Zeros in front of a number change nothing. -/
theorem ofDigitChars_replicate_append (k n : ℕ) :
    Nat.ofDigitChars 10 (List.replicate k '0' ++ Nat.toDigits 10 n) 0 = n := by
  rw [Nat.ofDigitChars_append, Nat.ofDigitChars_replicate_zero, mul_zero,
    Nat.ofDigitChars_ten_toDigits]

theorem isDigits_replicate_append (k n : ℕ) :
    IsDigits (List.replicate k '0' ++ Nat.toDigits 10 n) :=
  (Numeral.isDigits_replicate_zero k).append (isDigits_toDigits n)

/-- Places before the point: the zeros written there are read as digits. -/
theorem spells_digits_append_zeros (d : Decimal) (k : ℕ) :
    Spells (d.digits ++ List.replicate k '0') ⟨d.coefficient * 10 ^ k, 0⟩ := by
  have hne : d.digits ++ List.replicate k '0' ≠ [] :=
    List.append_ne_nil_of_left_ne_nil Nat.toDigits_ne_nil _
  have hspells := spells_digits hne (d.isDigits_digits.append (Numeral.isDigits_replicate_zero k))
  rwa [Nat.ofDigitChars_append, ofDigitChars_digits, Nat.ofDigitChars_replicate_zero,
    mul_comm] at hspells

/-- Places behind the point: the point stands among the digits. -/
theorem exists_positional_eq_of_neg (h : d.exponent < 0) :
    ∃ whole fraction, d.positional = whole ++ '.' :: fraction ∧ whole ≠ [] ∧ IsDigits whole ∧
      IsDigits fraction ∧ fraction.length = d.exponent.natAbs ∧
      Nat.ofDigitChars 10 (whole ++ fraction) 0 = d.coefficient := by
  obtain ⟨places, hplaces⟩ : ∃ places, places = d.exponent.natAbs := ⟨_, rfl⟩
  obtain ⟨padded, hpadded⟩ : ∃ padded,
      padded = List.replicate (places + 1 - d.digitCount) '0' ++ d.digits := ⟨_, rfl⟩
  have hdigits : IsDigits padded := by
    rw [hpadded]
    exact isDigits_replicate_append _ _
  have hlong : places + 1 ≤ padded.length := by
    rw [hpadded, List.length_append, List.length_replicate]
    show places + 1 ≤ places + 1 - d.digitCount + d.digitCount
    omega
  refine ⟨padded.take (padded.length - places), padded.drop (padded.length - places), ?_, ?_,
    fun c hc ↦ hdigits c (List.mem_of_mem_take hc), fun c hc ↦ hdigits c (List.mem_of_mem_drop hc),
    ?_, ?_⟩
  · rw [positional, if_pos h]
    simp only [← hplaces, ← hpadded]
  · rw [← List.length_pos_iff, List.length_take]
    omega
  · rw [List.length_drop]
    omega
  · rw [List.take_append_drop, hpadded]
    exact ofDigitChars_replicate_append _ _

theorem spells_positional_of_neg (h : d.exponent < 0) : Spells d.positional d := by
  obtain ⟨whole, fraction, hlayout, hne, hwhole, hfraction, hlength, hcoefficient⟩ :=
    exists_positional_eq_of_neg h
  have hread := ExtendedDecimal.readDecimal?_point [] hne hwhole hfraction nofun rfl
  rw [List.append_nil] at hread
  rw [hlayout]
  constructor
  · exact ⟨_, _, [], (List.append_nil _).symm, hne, hwhole, .inr ⟨_, rfl, hfraction⟩, .inl rfl⟩
  · have hexponent : 0 - (fraction.length : ℤ) = d.exponent := by
      omega
    rw [hread, hcoefficient, hexponent]

theorem exists_spells_positional (d : Decimal) :
    ∃ e : Decimal, Spells d.positional e ∧ e.toRat = d.toRat := by
  by_cases h : d.exponent < 0
  · exact ⟨d, spells_positional_of_neg h, rfl⟩
  · obtain ⟨k, hk⟩ : ∃ k : ℕ, d.exponent = k := ⟨d.exponent.natAbs, by omega⟩
    refine ⟨⟨d.coefficient * 10 ^ k, 0⟩, ?_, ?_⟩
    · rw [positional, if_neg h, hk]
      exact d.spells_digits_append_zeros k
    · rw [toRat, toRat, hk, zpow_zero, mul_one, zpow_natCast]
      push_cast
      rfl

/-! ### One digit before the point, and an exponent -/

/-- An exponent is read as it was written. -/
theorem exists_exponentText_eq (n : ℤ) :
    ∃ sign digits, Readout.exponentText n = sign :: digits ∧ sign ∈ ['+', '-'] ∧ digits ≠ [] ∧
      IsDigits digits ∧ ExtendedDecimal.readExponent? ('e' :: sign :: digits) = some n := by
  obtain ⟨digits, hdef⟩ : ∃ digits, digits =
      List.replicate (2 - (Nat.toDigits 10 n.natAbs).length) '0' ++ Nat.toDigits 10 n.natAbs :=
    ⟨_, rfl⟩
  have hne : digits ≠ [] := by
    rw [hdef]
    exact List.append_ne_nil_of_right_ne_nil _ Nat.toDigits_ne_nil
  have hdigits : IsDigits digits := by
    rw [hdef]
    exact isDigits_replicate_append _ _
  have hread : ExtendedDecimal.readNat? digits = some n.natAbs := by
    rw [ExtendedDecimal.readNat?_digits hne hdigits, hdef, ofDigitChars_replicate_append]
  by_cases hn : n < 0
  · refine ⟨'-', digits, by rw [Readout.exponentText, if_pos hn, hdef], by simp, hne, hdigits, ?_⟩
    have hvalue : -(n.natAbs : ℤ) = n := by omega
    simp only [ExtendedDecimal.readExponent?, ExtendedDecimal.readSign, true_or, if_true, hread]
    exact congrArg some hvalue
  · refine ⟨'+', digits, by rw [Readout.exponentText, if_neg hn, hdef], by simp, hne, hdigits, ?_⟩
    have hvalue : (n.natAbs : ℤ) = n := by omega
    simp only [ExtendedDecimal.readExponent?, ExtendedDecimal.readSign, true_or, if_true, hread]
    exact congrArg some hvalue

theorem spells_scientific (h : d.digitCount = 3) :
    Spells (d.normalized 3 ++ 'e' :: Readout.exponentText d.leadingPlace) d := by
  obtain ⟨first, second, third, hdigits⟩ := List.length_eq_three.mp h
  obtain ⟨sign, digits, htext, hsign, hne, hexponent, hread⟩ :=
    exists_exponentText_eq d.leadingPlace
  have hlayout : d.normalized 3 ++ 'e' :: Readout.exponentText d.leadingPlace =
      [first] ++ '.' :: ([second, third] ++ 'e' :: sign :: digits) := by
    rw [normalized, h, hdigits, htext]
    rfl
  have hall := d.isDigits_digits
  rw [hdigits] at hall
  have hwhole : IsDigits [first] := fun c hc ↦ hall c (by simp_all)
  have hfraction : IsDigits [second, third] := fun c hc ↦ hall c (by simp_all)
  have hmarker : ∀ c s, 'e' :: sign :: digits = c :: s → c.isDigit = false := by
    rintro c s heq
    cases heq
    rfl
  have hvalue := ExtendedDecimal.readDecimal?_point _ (List.cons_ne_nil first []) hwhole hfraction
    hmarker hread
  rw [hlayout]
  constructor
  · refine ⟨[first], '.' :: [second, third], 'e' :: sign :: digits, rfl, by simp, hwhole,
      .inr ⟨_, rfl, hfraction⟩, .inr ⟨'e', [sign], digits, rfl, rfl, ?_, hne, hexponent⟩⟩
    simpa using hsign
  · have hcoefficient := d.ofDigitChars_digits
    rw [hdigits] at hcoefficient
    have hplace : d.leadingPlace - ([second, third].length : ℕ) = d.exponent := by
      rw [leadingPlace, h]
      show d.exponent + (3 : ℕ) - 1 - (2 : ℕ) = d.exponent
      omega
    rw [hvalue, hplace]
    exact congrArg (fun n ↦ some (Decimal.mk n d.exponent)) hcoefficient

end Decimal

end PocketCalculator
