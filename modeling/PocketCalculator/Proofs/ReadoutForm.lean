import PocketCalculator.Proofs.ScientificReadout

/-!
# The form of what is shown

The text of a result is a numeral, perhaps behind a minus. Within the limit of plain readouts it has
at most seven places behind the point (`Readout.neg_seven_le_exponent_shortest`): the digits of a
fraction are the fewest that read back, and those it was rounded to end at the seventh place. Above
the limit it has three digits and the power of ten of the first (`Readout.exists_form`).
-/

namespace PocketCalculator

open Float.Model.UnpackedFloat
open Numeral (IsDigits IsNumeral)

variable {expression : String} {numeral : List Char} {p : ℚ} {x v : Float} {d : Decimal} {n : ℤ}
  {negative : Bool}

/-! ### Two forms of numerals -/

namespace Readout

/-- Digits, perhaps with a point and one to seven digits behind them. -/
def IsPlain (s : List Char) : Prop :=
  ∃ whole fraction, s = whole ++ fraction ∧ whole ≠ [] ∧ IsDigits whole ∧
    (fraction = [] ∨
      ∃ places, fraction = '.' :: places ∧ IsDigits places ∧ 1 ≤ places.length ∧ places.length ≤ 7)

/-- Three digits, the first not a zero and a point after it, and an exponent of two or three digits
behind a plus. -/
def IsScientific (s : List Char) : Prop :=
  ∃ first second third exponent, s = first :: '.' :: second :: third :: 'e' :: '+' :: exponent ∧
    IsDigits (first :: second :: third :: exponent) ∧ first ≠ '0' ∧ exponent.length ∈ [2, 3]

theorem IsPlain.isNumeral (h : IsPlain numeral) : IsNumeral numeral := by
  obtain ⟨whole, fraction, rfl, hne, hwhole, hfraction⟩ := h
  refine ⟨whole, fraction, [], (List.append_nil _).symm, hne, hwhole, ?_, .inl rfl⟩
  rcases hfraction with rfl | ⟨places, rfl, hplaces, -⟩
  · exact .inl rfl
  · exact .inr ⟨places, rfl, hplaces⟩

theorem IsScientific.isNumeral (h : IsScientific numeral) : IsNumeral numeral := by
  obtain ⟨first, second, third, exponent, rfl, hdigits, -, hlength⟩ := h
  simp only [IsDigits, List.forall_mem_cons] at hdigits
  obtain ⟨hfirst, hsecond, hthird, hexponent⟩ := hdigits
  refine ⟨[first], ['.', second, third], 'e' :: '+' :: exponent, rfl, List.cons_ne_nil _ _, ?_,
    .inr ⟨[second, third], rfl, ?_⟩, .inr ⟨'e', ['+'], exponent, rfl, rfl, by simp, ?_, hexponent⟩⟩
  · exact List.forall_mem_singleton.mpr hfirst
  · exact List.forall_mem_cons.mpr ⟨hsecond, List.forall_mem_singleton.mpr hthird⟩
  · rintro rfl
    exact absurd hlength (by decide)

theorem IsPlain.not_isScientific (h : IsPlain numeral) : ¬ IsScientific numeral := by
  rintro ⟨first, second, third, exponent, hscientific, -⟩
  have hmem : 'e' ∈ numeral := by
    rw [hscientific]
    simp
  obtain ⟨whole, fraction, rfl, -, hwhole, hfraction⟩ := h
  rcases List.mem_append.mp hmem with hin | hin
  · exact absurd (hwhole _ hin) (by decide)
  · rcases hfraction with rfl | ⟨places, rfl, hplaces, -⟩
    · cases hin
    · rcases List.mem_cons.mp hin with heq | hin
      · exact absurd heq (by decide)
      · exact absurd (hplaces _ hin) (by decide)

/-! ### Seven places -/

/-- The digits of one unit of the seventh place, which the float nearest to it does not reach. -/
theorem exists_ofFloat_unit (s : Sign) :
    ∃ d, ExtendedDecimal.ofFloat (writtenValue s ⟨1, -7⟩) = .finite (s == .negative) d ∧
      -7 ≤ d.shortest.exponent := by
  cases s with
  | negative => exact ⟨.ofBinary 7555786372591432 (-76), by decide +kernel, by decide +kernel⟩
  | positive => exact ⟨.ofBinary 7555786372591432 (-76), by decide +kernel, by decide +kernel⟩

theorem ten_zpow_neg_seven_le_nearest {k : ℕ} (hk : 2 ≤ k) :
    (10 : ℚ) ^ (-7 : ℤ) ≤ nearest (Decimal.mk k (-7)).toRat := by
  have hpower : Representable (2 ^ (-23 : ℤ)) :=
    ⟨1, -23, by norm_num, by norm_num, by norm_num, by rw [abs_of_pos (by positivity)]; simp⟩
  have hcast : (2 : ℚ) ≤ k := by exact_mod_cast hk
  have hle : (2 : ℚ) ^ (-23 : ℤ) ≤ k * 10 ^ (-7 : ℤ) := by
    norm_num
    linarith
  calc
    (10 : ℚ) ^ (-7 : ℤ) ≤ 2 ^ (-23 : ℤ) := by norm_num
    _ = nearest (2 ^ (-23 : ℤ)) := (nearest_of_representable hpower).symm
    _ ≤ nearest (k * 10 ^ (-7 : ℤ)) := nearest_mono hle

/-- The magnitude of a number rounded to seven places is the float nearest to some units of the
last of them. -/
theorem exists_nearest?_eq_abs_toPlaces (hlimit : |p| ≤ 10 ^ 10) :
    ∃ k : ℕ, nearest? (Decimal.mk k (-7)).toRat = some |toPlaces p| := by
  obtain ⟨units, hunits⟩ : ∃ units, units = roundHalfAway (nearest (p * 10 ^ 7)) := ⟨_, rfl⟩
  have hbound := abs_units_div_le hlimit
  rw [← hunits] at hbound
  have hmagnitude : (Decimal.mk units.natAbs (-7)).toRat = |(units : ℚ) / 10 ^ 7| := by
    rw [Decimal.toRat, Nat.cast_natAbs, Int.cast_abs, abs_div, zpow_neg, zpow_ofNat,
      abs_of_pos (by positivity : (0 : ℚ) < 10 ^ 7), div_eq_mul_inv]
  refine ⟨units.natAbs, ?_⟩
  rw [hmagnitude, toPlaces, ← hunits, abs_nearest]
  have hlimit : Representable (10 ^ 10) := representable_ten_pow (by norm_num)
  apply nearest?_of_abs_le (nearest?_of_representable hlimit)
  rwa [abs_abs]

/-- The fewest digits of a fraction end at the seventh place behind the point or before. -/
theorem neg_seven_le_exponent_shortest (hlimit : |p| ≤ 10 ^ 10)
    (hx : exactValue? x = some (toPlaces p)) (hzero : x == 0 → x = 0)
    (hd : ExtendedDecimal.ofFloat x = .finite negative d) : -7 ≤ d.shortest.exponent := by
  by_cases hp : toPlaces p = 0
  · obtain rfl := hzero ((beq_iff_of_exactValue? hx exactValue?_zero).mpr hp)
    cases hd
    exact le_trans (by norm_num) (Decimal.exponent_le_exponent_shortest _)
  obtain ⟨s, e, he, hsigned⟩ := exists_ofFloat_eq hx
  cases hd.symm.trans he
  obtain ⟨k, hk⟩ := exists_nearest?_eq_abs_toPlaces hlimit
  have hmagnitude : |toPlaces p| = d.toRat := by
    rw [hsigned, abs_signed, abs_of_nonneg d.toRat_nonneg]
  have hne : d.toRat ≠ 0 := by
    rw [← hmagnitude]
    exact abs_ne_zero.mpr hp
  rw [hmagnitude] at hk
  have hself : nearest? d.toRat = some d.toRat :=
    nearest?_of_representable (representable_of_nearest? hk)
  obtain rfl | rfl | hmany : k = 0 ∨ k = 1 ∨ 2 ≤ k := by omega
  · rw [Decimal.toRat, Nat.cast_zero, zero_mul, nearest?_of_representable representable_zero] at hk
    exact absurd (Option.some.inj hk).symm hne
  · -- The float nearest to one unit is less than it, so its first digits are nines.
    have hunit : exactValue? (writtenValue s ⟨1, -7⟩) = some (toPlaces p) := by
      rw [exactValue?_writtenValue, hk, hsigned]
      rfl
    obtain ⟨e, he, hexponent⟩ := exists_ofFloat_unit s
    rw [eq_of_exactValue? hunit hx hp] at he
    cases hd.symm.trans he
    exact hexponent
  · have hlarge := ten_zpow_neg_seven_le_nearest hmany
    rw [nearest_eq_of_nearest? hk] at hlarge
    have hsame : (Decimal.mk k (-7)).toFloat = d.toFloat := by
      rw [← Decimal.exactValue?_toFloat] at hk
      exact eq_of_exactValue? hk ((d.exactValue?_toFloat).trans hself) hne
    exact Decimal.exponent_le_exponent_shortest_of_toFloat hself hne hsame hlarge

/-! ### The form of each readout -/

theorem isPlain_positional (h : -7 ≤ d.exponent) : IsPlain d.positional := by
  by_cases hneg : d.exponent < 0
  · obtain ⟨whole, fraction, hlayout, hne, hwhole, hfraction, hlength, -⟩ :=
      Decimal.exists_positional_eq_of_neg hneg
    refine ⟨whole, '.' :: fraction, hlayout, hne, hwhole, .inr ⟨fraction, rfl, hfraction, ?_⟩⟩
    omega
  · rw [Decimal.positional, if_neg hneg]
    have hne : d.digits ++ List.replicate d.exponent.natAbs '0' ≠ [] :=
      List.append_ne_nil_of_left_ne_nil Nat.toDigits_ne_nil _
    have hdigits := d.isDigits_digits.append (Numeral.isDigits_replicate_zero d.exponent.natAbs)
    exact ⟨_, [], (List.append_nil _).symm, hne, hdigits, .inl rfl⟩

theorem toDigits_of_three {c : ℕ} (hlower : 100 ≤ c) (hupper : c ≤ 999) :
    Nat.toDigits 10 c =
      [(c / 10 / 10).digitChar, (c / 10 % 10).digitChar, (c % 10).digitChar] := by
  rw [Nat.toDigits_of_base_le (by norm_num) (by omega),
    Nat.toDigits_of_base_le (by norm_num) (by omega), Nat.toDigits_of_lt_base (by omega)]
  rfl

theorem two_le_length_toDigits {n : ℕ} (h : 10 ≤ n) : 2 ≤ (Nat.toDigits 10 n).length := by
  by_contra hshort
  have hless := (Nat.length_toDigits_le_iff (b := 10) (k := 1) (by norm_num) (by norm_num)).mp
    (Nat.le_of_lt_succ (not_le.mp hshort))
  omega

/-- An exponent of ten or more has no zeros in front. -/
theorem exponentText_natCast {n : ℕ} (h : 10 ≤ n) :
    exponentText n = '+' :: Nat.toDigits 10 n := by
  have hlength := two_le_length_toDigits h
  rw [exponentText, if_neg (by omega), Int.natAbs_natCast, Nat.sub_eq_zero_of_le (by omega)]
  rfl

theorem isScientific_layout {c : ℕ} {j : ℤ} (hlower : 100 ≤ c) (hupper : c ≤ 999) (hj : 8 ≤ j)
    (hmost : j ≤ 306) : IsScientific ((Decimal.mk c j).normalized 3 ++
      'e' :: exponentText (Decimal.mk c j).leadingPlace) := by
  have hcount := Decimal.digitCount_eq_three hlower hupper j
  have hplace : (Decimal.mk c j).leadingPlace = j + 2 := by
    rw [Decimal.leadingPlace, hcount]
    push_cast
    ring
  obtain ⟨n, hn⟩ := Int.eq_ofNat_of_zero_le (by omega : 0 ≤ j + 2)
  have hlong : 2 ≤ (Nat.toDigits 10 n).length := two_le_length_toDigits (by omega)
  have hshort : (Nat.toDigits 10 n).length ≤ 3 := by
    rw [Nat.length_toDigits_le_iff (by norm_num) (by norm_num)]
    omega
  rw [hplace, hn, exponentText_natCast (by omega), Decimal.normalized, hcount, Decimal.digits,
    toDigits_of_three hlower hupper]
  refine ⟨_, _, _, _, rfl, ?_, ?_, ?_⟩
  · have hdigits := (isDigits_toDigits c).append (isDigits_toDigits n)
    rwa [toDigits_of_three hlower hupper] at hdigits
  · rw [ne_eq, Nat.digitChar_eq_zero]
    omega
  · rw [List.mem_pair]
    omega

/-- The numeral that a readout is shown by, behind its sign. -/
def HasForm : Readout → List Char → Prop
  | whole _ | fraction _ => IsPlain
  | scientific _ => IsScientific

variable {r : Readout}

theorem HasForm.isNumeral (h : r.HasForm numeral) : IsNumeral numeral := by
  cases r with
  | whole n | fraction x => exact IsPlain.isNumeral h
  | scientific x => exact IsScientific.isNumeral h

theorem exists_hasForm (h : ofExpression expression = .ok r) :
    ∃ (negative : Bool) (numeral : List Char),
      r.text = String.ofList ((if negative then ['-'] else []) ++ numeral) ∧
        r.HasForm numeral := by
  cases r with
  | whole n =>
    exact ⟨n < 0, _, rfl, isPlain_positional (d := ⟨n.natAbs, 0⟩) (by norm_num)⟩
  | fraction x =>
    obtain ⟨p, hlimit, hx, hzero⟩ := exists_exactValue?_of_fraction h
    obtain ⟨s, d, hd, -⟩ := exists_ofFloat_eq hx
    refine ⟨s == .negative, d.shortest.positional, ?_, ?_⟩
    · rw [text, plainText, hd]
      rfl
    · exact isPlain_positional (neg_seven_le_exponent_shortest hlimit hx hzero hd)
  | scientific v =>
    obtain ⟨s, c, j, htext, hlower, hupper, hj, hrange⟩ := exists_shownText_of_scientific h
    rw [shownText_of_ofExpression h] at htext
    exact ⟨s == .negative, _, htext, isScientific_layout hlower hupper hj (by omega)⟩

theorem text_ne_negative_zero (h : ofExpression expression = .ok r) : r.text ≠ "-0" := by
  intro htext
  cases r with
  | whole n =>
    rw [text, wholeText_eq, String.ofList_eq] at htext
    by_cases hneg : n < 0
    · rw [if_pos hneg] at htext
      have hdigits : Nat.toDigits 10 n.natAbs = ['0'] := (List.cons.inj htext).2
      have hzero := congrArg (Nat.ofDigitChars 10 · 0) hdigits
      rw [Nat.ofDigitChars_ten_toDigits] at hzero
      have hvalue : n.natAbs = 0 := hzero
      omega
    · rw [if_neg hneg, List.nil_append] at htext
      have hdigit := isDigits_toDigits n.natAbs '-' (by rw [htext]; exact List.mem_cons_self)
      exact absurd hdigit (by decide)
  | fraction x =>
    obtain ⟨p, -, hx, hzero⟩ := exists_exactValue?_of_fraction h
    have hcalculated := calculate_plainText (isFinite_of_exactValue? hx) hzero
    have hminus : calculate "-0" = .ok 0 := by decide +kernel
    rw [text] at htext
    rw [htext, hminus] at hcalculated
    cases hcalculated
    exact absurd htext (by decide)
  | scientific v =>
    obtain ⟨negative, numeral, heq, hform⟩ := exists_hasForm h
    obtain ⟨first, second, third, exponent, rfl, -⟩ := hform
    have hmem : 'e' ∈ "-0".toList := by
      rw [← htext, heq]
      simp
    exact absurd hmem (by decide)

theorem ne_minus_of_isDigit {c : Char} (hc : c.isDigit) : c ≠ '-' := by
  rintro rfl
  cases hc

theorem text_ne_word (h : ofExpression expression = .ok r) :
    ∀ word ∈ ["inf", "-inf", "NaN"], r.text ≠ word := by
  obtain ⟨negative, numeral, htext, hform⟩ := exists_hasForm h
  obtain ⟨c, rest, rfl, hc⟩ := hform.isNumeral.exists_cons
  have hminus : (c == '-') = false := beq_eq_false_iff_ne.mpr (ne_minus_of_isDigit hc)
  have hdigit : (r.text.toList.dropWhile (· == '-')).head?.any Char.isDigit := by
    rw [htext, String.toList_ofList]
    cases negative <;> simp [hminus, hc]
  have hwords : ∀ word ∈ ["inf", "-inf", "NaN"],
      ¬ (word.toList.dropWhile (· == '-')).head?.any Char.isDigit := by
    decide
  rintro word hword rfl
  exact hwords _ hword hdigit

theorem ofChars_signed_numeral (negative : Bool) (h : IsNumeral numeral) :
    Lexeme.ofChars ((if negative then ['-'] else []) ++ numeral) =
      (if negative then [.token (.operator .subtract)] else []) ++
        [.token (.number (String.ofList numeral))] := by
  cases negative with
  | false => exact Lexeme.ofChars_numeral h
  | true => exact Lexeme.ofChars_minus_numeral h

/-- The form of a numeral follows from the magnitude of the result. -/
theorem form_iff_of_hasForm {q : ℚ} (hq : exactValue? v = some q)
    (h : (ofFloat v).HasForm numeral) :
    (IsPlain numeral ↔ v.abs ≤ plainLimit) ∧ (IsScientific numeral ↔ plainLimit < v.abs) := by
  have hle := le_iff_of_exactValue? (exactValue?_abs hq) exactValue?_plainLimit
  have hlt := plainLimit_lt_abs_iff hq
  rw [hle, hlt]
  obtain ⟨hlimit, hform⟩ | ⟨n, rfl, hlimit, hform⟩ | ⟨hlimit, -, hform⟩ := ofFloat_cases hq
  all_goals rw [hform] at h
  · exact ⟨iff_of_false (fun hplain ↦ hplain.not_isScientific h) (not_le.mpr hlimit),
      iff_of_true h hlimit⟩
  · have hcast : |(n : ℚ)| ≤ 10 ^ 10 := abs_intCast_le_limit_iff.mpr hlimit
    exact ⟨iff_of_true h hcast, iff_of_false (IsPlain.not_isScientific h) (not_lt.mpr hcast)⟩
  · exact ⟨iff_of_true h hlimit, iff_of_false (IsPlain.not_isScientific h) (not_lt.mpr hlimit)⟩

/-- What is shown is a numeral behind a minus or alone, with at most seven places within the limit
of plain readouts and a power of ten above it. It is cut into these tokens, and it is no zero with a
minus. -/
theorem form_of_ofExpression (h : ofExpression expression = .ok r) :
    ∃ (v : Float) (negative : Bool) (numeral : List Char), calculate expression = .ok v ∧
      r.text.toList = (if negative then ['-'] else []) ++ numeral ∧
      (IsPlain numeral ↔ v.abs ≤ plainLimit) ∧ (IsScientific numeral ↔ plainLimit < v.abs) ∧
      r.text ∉ ["-0", "inf", "-inf", "NaN"] ∧
      tokenize r.text = (if negative then [.operator .subtract] else []) ++
        [.number (String.ofList numeral)] ∧
      (negative ↔ r.text.toList.head? = some '-') ∧
      Lexeme.ofChars r.text.toList = (tokenize r.text).map .token := by
  obtain ⟨v, hv, hr⟩ := exists_calculate_of_ofExpression h
  obtain ⟨q, hq⟩ := isFinite_iff_exactValue?.mp (isFinite_of_calculate hv)
  obtain ⟨negative, numeral, htext, hform⟩ := exists_hasForm h
  have hchars := (congrArg String.toList htext).trans String.toList_ofList
  have hlexemes := ofChars_signed_numeral negative hform.isNumeral
  have htokens : tokenize r.text = (if negative then [.operator .subtract] else []) ++
      [.number (String.ofList numeral)] := by
    rw [tokenize_eq, hchars, hlexemes]
    cases negative <;> rfl
  obtain ⟨hplain, hscientific⟩ := form_iff_of_hasForm hq (hr ▸ hform)
  refine ⟨v, negative, numeral, hv, hchars, hplain, hscientific, ?_, htokens, ?_, ?_⟩
  · rw [List.mem_cons, not_or]
    exact ⟨text_ne_negative_zero h, fun hmem ↦ text_ne_word h _ hmem rfl⟩
  · obtain ⟨c, rest, rfl, hc⟩ := hform.isNumeral.exists_cons
    rw [hchars]
    cases negative with
    | false => simpa using ne_minus_of_isDigit hc
    | true => simp
  · rw [htokens, hchars, hlexemes]
    cases negative <;> rfl

/-- The text is `-0.6666667`. -/
theorem form_of_negative_two_thirds :
    ofExpression "-2 / 3" = .ok (.fraction (-0.6666667)) ∧
      ∃ (v : Float) (negative : Bool) (numeral : List Char), calculate "-2 / 3" = .ok v ∧
        (fraction (-0.6666667)).text.toList = (if negative then ['-'] else []) ++ numeral ∧
        (IsPlain numeral ↔ v.abs ≤ plainLimit) ∧ (IsScientific numeral ↔ plainLimit < v.abs) ∧
        (fraction (-0.6666667)).text ∉ ["-0", "inf", "-inf", "NaN"] ∧
        tokenize (fraction (-0.6666667)).text =
          (if negative then [.operator .subtract] else []) ++ [.number (String.ofList numeral)] ∧
        (negative ↔ (fraction (-0.6666667)).text.toList.head? = some '-') ∧
        Lexeme.ofChars (fraction (-0.6666667)).text.toList =
          (tokenize (fraction (-0.6666667)).text).map .token := by
  have hshown : ofExpression "-2 / 3" = .ok (.fraction (-0.6666667)) := by decide +kernel
  exact ⟨hshown, form_of_ofExpression hshown⟩

end Readout

end PocketCalculator
