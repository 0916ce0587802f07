import PocketCalculator.Proofs.Decimal.Significant
import PocketCalculator.Proofs.Decimal.Spelling
import PocketCalculator.Proofs.Readout

/-!
# Padded exponents

The text of a number with a power of ten is made in two steps: first with the exponent as it is
(`Readout.bareText`), then cut at the marker of the exponent, which is read and written again with
its sign and two digits at least (`Readout.padExponent?`). The exponent can always be read: it is
the place of the first digit of a float, rounded to three digits
(`leadingPlace_roundDigits_of_ofFloat`). So padding never fails, and its text is the one that is
laid out with a padded exponent at once (`Readout.text_scientific_eq`).
-/

namespace PocketCalculator

open Numeral (IsDigits)
open ExtendedDecimal (readSign readNat? readExponent?)

variable {d : Decimal} {n : ℤ} {v : Float} {negative : Bool} {mantissa : List Char}

/-! ### The range of exponents -/

theorem two_mul_ten_zpow_lt : 2 * (10 : ℚ) ^ (-324 : ℤ) < 2 ^ (-1074 : ℤ) := by
  rw [zpow_neg, zpow_neg, zpow_ofNat, zpow_ofNat, pow_mul 10 162 2, pow_mul 2 179 6]
  norm_num only

theorem two_pow_1024_lt : (2 : ℚ) ^ 1024 < 1798 * 10 ^ (305 : ℤ) := by
  rw [zpow_ofNat, pow_mul 2 256 4, pow_mul 10 61 5]
  norm_num only

theorem two_pow_1024_lt_ten_zpow : (2 : ℚ) ^ 1024 < 10 ^ (309 : ℤ) / 2 := by
  apply two_pow_1024_lt.trans
  rw [zpow_ofNat, zpow_ofNat, pow_mul 10 61 5, pow_mul 10 103 3]
  norm_num only

/-- The place of the first digit of a float that is rounded to three digits. -/
theorem leadingPlace_roundDigits_of_ofFloat
    (h : ExtendedDecimal.ofFloat v = .finite negative d) :
    -324 ≤ (d.roundDigits 3).leadingPlace ∧ (d.roundDigits 3).leadingPlace ≤ 308 := by
  by_cases hzero : d.coefficient = 0
  · rw [eq_zero_of_ofFloat h hzero]
    decide
  obtain ⟨q, hq⟩ := exists_exactValue?_of_ofFloat h
  obtain ⟨s, e, he, rfl⟩ := exists_ofFloat_eq hq
  cases h.symm.trans he
  have hrepresentable := representable_of_exactValue? (exactValue?_abs hq)
  rw [abs_signed, abs_of_nonneg d.toRat_nonneg] at hrepresentable
  have hmost := (le_abs_self _).trans_lt hrepresentable.abs_lt
  obtain ⟨hlower, hupper⟩ := Decimal.roundDigits_bounds hzero
  have hpos : 0 < d.toRat := lt_of_lt_of_le (by positivity) hlower
  have hleast := hrepresentable.two_zpow_le hpos
  constructor
  · by_contra hless
    have hplace : (10 : ℚ) ^ ((d.roundDigits 3).leadingPlace + 1) ≤ 10 ^ (-324 : ℤ) :=
      zpow_le_zpow_right₀ (by norm_num) (by omega)
    apply lt_irrefl d.toRat
    calc
      d.toRat < 2 * 10 ^ ((d.roundDigits 3).leadingPlace + 1) := hupper
      _ ≤ 2 * 10 ^ (-324 : ℤ) := mul_le_mul_of_nonneg_left hplace (by norm_num)
      _ < 2 ^ (-1074 : ℤ) := two_mul_ten_zpow_lt
      _ ≤ d.toRat := hleast
  · by_contra hgreater
    have hplace : (10 : ℚ) ^ (309 : ℤ) ≤ 10 ^ (d.roundDigits 3).leadingPlace :=
      zpow_le_zpow_right₀ (by norm_num) (by omega)
    apply lt_irrefl d.toRat
    calc
      d.toRat < 2 ^ 1024 := hmost
      _ < 10 ^ (309 : ℤ) / 2 := two_pow_1024_lt_ten_zpow
      _ ≤ 10 ^ (d.roundDigits 3).leadingPlace / 2 := div_le_div_of_nonneg_right hplace (by norm_num)
      _ ≤ d.toRat := hlower

/-! ### Three digits -/

/-- A point stands after the first digit of three or fewer, and zeros behind the last. -/
theorem Decimal.exists_normalized_eq (h : d.digitCount ≤ 3) :
    ∃ first second third, d.normalized 3 = [first, '.', second, third] ∧
      IsDigits [first, second, third] := by
  obtain ⟨padded, hpadded⟩ : ∃ padded,
      padded = d.digits ++ List.replicate (3 - d.digitCount) '0' := ⟨_, rfl⟩
  have hlength : padded.length = 3 := by
    rw [hpadded, List.length_append, List.length_replicate]
    show d.digitCount + (3 - d.digitCount) = 3
    omega
  have hdigits : IsDigits padded := by
    rw [hpadded]
    exact d.isDigits_digits.append (Numeral.isDigits_replicate_zero _)
  obtain ⟨first, second, third, rfl⟩ := List.length_eq_three.mp hlength
  exact ⟨first, second, third, by rw [normalized, ← hpadded], hdigits⟩

namespace Readout

/-! ### Exponents -/

theorem readSign_wholeText (n : ℤ) :
    readSign (wholeText n) = (decide (n < 0), Nat.toDigits 10 n.natAbs) := by
  rw [wholeText_eq]
  by_cases hn : n < 0
  · rw [if_pos hn, decide_eq_true hn]
    rfl
  · obtain ⟨c, rest, hdigits⟩ := List.exists_cons_of_ne_nil
      (Nat.toDigits_ne_nil : Nat.toDigits 10 n.natAbs ≠ [])
    have hc : c.isDigit := isDigits_toDigits n.natAbs c (by simp [hdigits])
    rw [if_neg hn, decide_eq_false hn, hdigits]
    exact ExtendedDecimal.readSign_cons_of_isDigit hc

theorem readNat?_toDigits (n : ℕ) : readNat? (Nat.toDigits 10 n) = some n := by
  rw [ExtendedDecimal.readNat?_digits Nat.toDigits_ne_nil (isDigits_toDigits n),
    Nat.ofDigitChars_ten_toDigits]

theorem signed_natAbs (n : ℤ) : (if n < 0 then -(n.natAbs : ℤ) else n.natAbs) = n := by
  split <;> omega

theorem readInt32?_wholeText (hlower : -2 ^ 31 ≤ n) (hupper : n < 2 ^ 31) :
    readInt32? (wholeText n) = some n := by
  simp only [readInt32?, readSign_wholeText, readNat?_toDigits, Option.map_some,
    decide_eq_true_eq, signed_natAbs]
  have hleast : Int32.minValue.toInt = -2 ^ 31 := rfl
  have hgreatest : Int32.maxValue.toInt = 2 ^ 31 - 1 := rfl
  exact Option.filter_eq_some_iff.mpr ⟨rfl, decide_eq_true (by omega)⟩

theorem readExponent?_wholeText (n : ℤ) : readExponent? ('e' :: wholeText n) = some n := by
  simp only [readExponent?, true_or, if_true, readSign_wholeText, readNat?_toDigits,
    decide_eq_true_eq]
  exact congrArg some (signed_natAbs n)

theorem readExponent?_exponentText (n : ℤ) : readExponent? ('e' :: exponentText n) = some n := by
  obtain ⟨sign, digits, htext, -, -, -, hread⟩ := Decimal.exists_exponentText_eq n
  rw [htext, hread]

/-- Exponents of floats have two or three digits. -/
theorem exists_exponentText_eq_of_bounds (hlower : -324 ≤ n) (hupper : n ≤ 308) :
    ∃ sign digits, exponentText n = sign :: digits ∧ sign ∈ ['+', '-'] ∧ IsDigits digits ∧
      digits.length ∈ [2, 3] := by
  obtain ⟨sign, digits, htext, hsign, -, hdigits, -⟩ := Decimal.exists_exponentText_eq n
  refine ⟨sign, digits, htext, hsign, hdigits, ?_⟩
  have hfew : (Nat.toDigits 10 n.natAbs).length ≤ 3 := by
    rw [Nat.length_toDigits_le_iff (by norm_num) (by norm_num)]
    omega
  have hlength := congrArg List.length htext
  simp only [exponentText, List.length_cons, List.length_append, List.length_replicate] at hlength
  rw [List.mem_pair]
  omega

/-! ### Cutting and padding -/

theorem cutAtMarker?_append_cons (h : 'e' ∉ mantissa) (exponent : List Char) :
    cutAtMarker? (mantissa ++ 'e' :: exponent) = some (mantissa, exponent) := by
  have hbefore : ∀ c ∈ mantissa, decide (c ≠ 'e') = true := by
    rintro c hc
    exact decide_eq_true fun heq ↦ h (heq ▸ hc)
  rw [cutAtMarker?, List.dropWhile_append_of_pos hbefore, List.takeWhile_append_of_pos hbefore]
  simp

theorem padExponent?_wholeText (h : 'e' ∉ mantissa) (hlower : -2 ^ 31 ≤ n) (hupper : n < 2 ^ 31) :
    padExponent? (mantissa ++ 'e' :: wholeText n) = some (mantissa ++ 'e' :: exponentText n) := by
  simp only [padExponent?, cutAtMarker?_append_cons h, readInt32?_wholeText hlower hupper,
    Option.map_some]

/-- Three digits and the place of the first, padded at once: `1.10e+12`. -/
def scientificLayout (magnitude : Decimal) : List Char :=
  let rounded := magnitude.roundDigits 3
  rounded.normalized 3 ++ 'e' :: exponentText rounded.leadingPlace

/-- Three digits with a point behind the first. A minus may stand in front. -/
def IsMantissa (s : List Char) : Prop :=
  ∃ (negative : Bool) (first second third : Char),
    s = (if negative then ['-'] else []) ++ [first, '.', second, third] ∧
      IsDigits [first, second, third]

/-- Three digits, and an exponent with its sign and two or three digits. -/
def IsPadded (s : List Char) : Prop :=
  ∃ mantissa sign exponent, s = mantissa ++ 'e' :: sign :: exponent ∧ IsMantissa mantissa ∧
    sign ∈ ['+', '-'] ∧ IsDigits exponent ∧ exponent.length ∈ [2, 3]

theorem IsMantissa.marker_notMem (h : IsMantissa mantissa) : 'e' ∉ mantissa := by
  obtain ⟨negative, first, second, third, rfl, hdigits⟩ := h
  simp only [IsDigits, List.forall_mem_cons] at hdigits
  obtain ⟨hfirst, hsecond, hthird, -⟩ := hdigits
  have hne : ∀ c : Char, c.isDigit → 'e' ≠ c := by
    rintro c hc rfl
    cases hc
  cases negative <;> simp [hne, hfirst, hsecond, hthird]

/-- Exponents that are read alike give the same number behind the same digits. -/
theorem IsMantissa.exists_ofChars?_eq (h : IsMantissa mantissa) (n : ℤ) :
    ∃ x, ∀ exponent, readExponent? ('e' :: exponent) = some n →
      ExtendedDecimal.ofChars? (mantissa ++ 'e' :: exponent) = some x := by
  obtain ⟨negative, first, second, third, rfl, hdigits⟩ := h
  refine ⟨.finite negative ⟨Nat.ofDigitChars 10 [first, second, third] 0, n - 2⟩, ?_⟩
  intro exponent hread
  have hfirst : first.isDigit := hdigits first List.mem_cons_self
  have hwhole : IsDigits [first] := List.forall_mem_singleton.mpr hfirst
  have hfraction : IsDigits [second, third] := (List.forall_mem_cons.mp hdigits).2
  have hmarker : ∀ c s, 'e' :: exponent = c :: s → c.isDigit = false := by
    rintro c s heq
    cases heq
    rfl
  have hdecimal := ExtendedDecimal.readDecimal?_point _ (List.cons_ne_nil first []) hwhole
    hfraction hmarker hread
  rw [List.append_assoc]
  exact (ExtendedDecimal.ofChars?_signed negative hfirst).trans (congrArg _ hdecimal)

/-- The two texts of a finite number differ in their exponents alone. -/
theorem exists_texts_eq (h : v.isFinite) :
    ∃ mantissa n, IsMantissa mantissa ∧ -324 ≤ n ∧ n ≤ 308 ∧
      bareText v = mantissa ++ 'e' :: wholeText n ∧
      (ExtendedDecimal.ofFloat v).text scientificLayout = mantissa ++ 'e' :: exponentText n := by
  obtain ⟨q, hq⟩ := isFinite_iff_exactValue?.mp h
  obtain ⟨s, d, hd, -⟩ := exists_ofFloat_eq hq
  obtain ⟨hlower, hupper⟩ := leadingPlace_roundDigits_of_ofFloat hd
  obtain ⟨first, second, third, hnormalized, hdigits⟩ :=
    Decimal.exists_normalized_eq d.digitCount_roundDigits_le
  refine ⟨_, _, ⟨s == .negative, first, second, third, rfl, hdigits⟩, hlower, hupper, ?_, ?_⟩
  · rw [bareText, hd, ExtendedDecimal.text, bareLayout, hnormalized, List.append_assoc]
  · rw [hd, ExtendedDecimal.text, scientificLayout, hnormalized, List.append_assoc]

/-- A number that is not finite is a word without an exponent. -/
theorem texts_eq_of_not_isFinite (h : v.isFinite = false) :
    bareText v = (ExtendedDecimal.ofFloat v).text scientificLayout ∧
      padExponent? (bareText v) = some (bareText v) := by
  rw [bareText]
  cases hv : ExtendedDecimal.ofFloat v with
  | nan => exact ⟨rfl, by decide⟩
  | infinite negative => exact ⟨rfl, by cases negative <;> decide⟩
  | finite negative d =>
    rw [isFinite_iff_exactValue?.mpr (exists_exactValue?_of_ofFloat hv)] at h
    cases h

/-- Padding never fails. -/
theorem padExponent?_bareText_eq (v : Float) :
    padExponent? (bareText v) = some ((ExtendedDecimal.ofFloat v).text scientificLayout) := by
  cases hv : v.isFinite with
  | false =>
    obtain ⟨hsame, hpadded⟩ := texts_eq_of_not_isFinite hv
    rw [hpadded, hsame]
  | true =>
    obtain ⟨mantissa, n, hmantissa, hlower, hupper, hbare, hscientific⟩ := exists_texts_eq hv
    rw [hbare, hscientific]
    exact padExponent?_wholeText hmantissa.marker_notMem (by omega) (by omega)

/-- The exponent could as well have been laid out with its sign and two digits at first. -/
theorem text_scientific_eq (v : Float) : (scientific v).text =
    String.ofList ((ExtendedDecimal.ofFloat v).text scientificLayout) := by
  rw [text, paddedText?, padExponent?_bareText_eq]
  rfl

/-- Padding gives the text of every number. If the number is finite, this text has the padded form
and is read as the same float as the text before; else it is the text before. -/
theorem padExponent?_bareText (v : Float) :
    padExponent? (bareText v) = some (scientific v).text.toList ∧
      (scientific v).text = String.ofList ((ExtendedDecimal.ofFloat v).text scientificLayout) ∧
      (v.isFinite → IsPadded (scientific v).text.toList ∧
        ∃ x, readFloat? (scientific v).text = some x ∧
          readFloat? (String.ofList (bareText v)) = some x) ∧
      (v.isNaN ∨ v.isInf → (scientific v).text.toList = bareText v) := by
  have htext := text_scientific_eq v
  refine ⟨?_, htext, fun hfinite ↦ ?_, fun hother ↦ ?_⟩
  · rw [htext, String.toList_ofList]
    exact padExponent?_bareText_eq v
  · obtain ⟨mantissa, n, hmantissa, hlower, hupper, hbare, hscientific⟩ := exists_texts_eq hfinite
    rw [htext, hscientific, hbare, String.toList_ofList]
    constructor
    · obtain ⟨sign, digits, hexponent, hsign, hdigits, hlength⟩ :=
        exists_exponentText_eq_of_bounds hlower hupper
      exact ⟨mantissa, sign, digits, by rw [hexponent], hmantissa, hsign, hdigits, hlength⟩
    · obtain ⟨x, hx⟩ := hmantissa.exists_ofChars?_eq n
      refine ⟨x.toFloat, ?_, ?_⟩
      · rw [readFloat?, String.toList_ofList, hx _ (readExponent?_exponentText _), Option.map_some]
      · rw [readFloat?, String.toList_ofList, hx _ (readExponent?_wholeText _), Option.map_some]
  · rw [htext, String.toList_ofList]
    exact (texts_eq_of_not_isFinite (not_isFinite_iff.mpr hother)).1.symm

/-- Rounding carries to the next place, whose exponent is padded: `1.00e-9` becomes `1.00e-09`. -/
theorem padExponent?_bareText_carry :
    bareText 9.999e-10 = "1.00e-9".toList ∧ (scientific 9.999e-10).text = "1.00e-09" ∧
      padExponent? "1.00e-9".toList = some "1.00e-09".toList ∧
      ∃ x, readFloat? "1.00e-09" = some x ∧ readFloat? "1.00e-9" = some x := by
  have hfinite : (9.999e-10 : Float).isFinite := by decide +kernel
  have hbare : bareText 9.999e-10 = "1.00e-9".toList := by decide +kernel
  have htext : (scientific 9.999e-10).text = "1.00e-09" := by decide +kernel
  obtain ⟨hpadded, -, hread, -⟩ := padExponent?_bareText 9.999e-10
  obtain ⟨-, x, hx, hx'⟩ := hread hfinite
  rw [hbare, htext] at hpadded
  rw [htext] at hx
  rw [hbare, String.ofList_toList] at hx'
  exact ⟨hbare, htext, hpadded, x, hx, hx'⟩

end Readout

end PocketCalculator
