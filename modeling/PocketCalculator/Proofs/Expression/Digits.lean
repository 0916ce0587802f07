import Mathlib.Data.List.TakeWhile
import PocketCalculator.Decimal.Reading
import PocketCalculator.Postfix.Evaluation
import PocketCalculator.Proofs.Expression.Lexeme
import PocketCalculator.Proofs.Expression.NumeralForm

/-!
# Numerals alone

A text that is a numeral is one number token (`tokenize_numeral`), and its value is the float of the
decimal that it is read as (`Spells.value_eq`). Digits are read as the natural number that they
denote.
-/

namespace PocketCalculator

open Numeral (IsDigits IsExponent IsNumeral)

variable {digits numeral whole fraction exponent rest : List Char} {d : Decimal} {e : Int}

theorem Lexeme.ofChars_numeral (h : IsNumeral numeral) :
    ofChars numeral = [token (.number (String.ofList numeral))] := by
  obtain ⟨c, rest, rfl, hc⟩ := h.exists_cons
  rw [ofChars_cons, first, if_pos hc, h.span_eq, ofChars_nil]

theorem Lexeme.ofChars_minus_numeral (h : IsNumeral numeral) :
    ofChars ('-' :: numeral) =
      [token (.operator .subtract), token (.number (String.ofList numeral))] := by
  have hfirst : first '-' numeral = (token (.operator .subtract), numeral) := rfl
  rw [ofChars_cons, hfirst, ofChars_numeral h]

theorem tokenize_numeral (h : IsNumeral numeral) :
    tokenize (String.ofList numeral) = [.number (String.ofList numeral)] := by
  rw [tokenize_eq, String.toList_ofList, Lexeme.ofChars_numeral h]
  rfl

theorem tokenize_minus_numeral (h : IsNumeral numeral) :
    tokenize (String.ofList ('-' :: numeral)) =
      [.operator .subtract, .number (String.ofList numeral)] := by
  rw [tokenize_eq, String.toList_ofList, Lexeme.ofChars_minus_numeral h]
  rfl

/-! ### What a numeral is read as -/

namespace ExtendedDecimal

variable {c : Char} {s : List Char}

theorem readSign_cons_of_isDigit (hc : c.isDigit) : readSign (c :: s) = (false, c :: s) := by
  unfold readSign
  split
  · next heq =>
    cases heq
    cases hc
  · next heq =>
    cases heq
    cases hc
  · rfl

theorem readNat?_digits (hne : digits ≠ []) (h : IsDigits digits) :
    readNat? digits = some (Nat.ofDigitChars 10 digits 0) := by
  rw [readNat?, if_pos]
  rw [List.all_eq_true.mpr h, Bool.and_true, Bool.not_eq_true', List.isEmpty_eq_false_iff]
  exact hne

/-- Digits end where no digit follows. -/
theorem span_digits_append (h : IsDigits digits)
    (hrest : ∀ c s, rest = c :: s → c.isDigit = false) :
    (digits ++ rest).takeWhile Char.isDigit = digits ∧
      (digits ++ rest).dropWhile Char.isDigit = rest := by
  cases rest with
  | nil =>
    rw [List.append_nil]
    exact ⟨List.takeWhile_eq_self_iff.mpr h, List.dropWhile_eq_nil_iff.mpr h⟩
  | cons c s =>
    exact Prod.ext_iff.mp (Numeral.spanDigits_append_cons h (hrest c s rfl) s)

theorem readDecimal?_whole (hne : digits ≠ []) (h : IsDigits digits)
    (hrest : ∀ c s, rest = c :: s → c.isDigit = false ∧ c ≠ '.')
    (he : readExponent? rest = some e) :
    readDecimal? (digits ++ rest) = some ⟨Nat.ofDigitChars 10 digits 0, e⟩ := by
  obtain ⟨htake, hdrop⟩ := span_digits_append h fun c s heq ↦ (hrest c s heq).1
  have hfraction : readFraction rest = ([], rest) := by
    unfold readFraction
    split
    · next s => exact absurd rfl (hrest '.' s rfl).2
    · rfl
  simp [readDecimal?, htake, hdrop, hfraction, readNat?_digits hne h, he]

theorem readDecimal?_point (rest : List Char) (hne : whole ≠ []) (hwhole : IsDigits whole)
    (hfraction : IsDigits fraction) (hrest : ∀ c s, rest = c :: s → c.isDigit = false)
    (he : readExponent? rest = some e) :
    readDecimal? (whole ++ '.' :: (fraction ++ rest)) =
      some ⟨Nat.ofDigitChars 10 (whole ++ fraction) 0, e - fraction.length⟩ := by
  have hpoint : ∀ c s, '.' :: (fraction ++ rest) = c :: s → c.isDigit = false := by
    rintro c s h
    cases h
    rfl
  obtain ⟨htake, hdrop⟩ := span_digits_append hwhole hpoint
  obtain ⟨htakeFraction, hdropFraction⟩ := span_digits_append hfraction hrest
  have hnat := readNat?_digits (by simp [hne]) (hwhole.append hfraction)
  simp only [readDecimal?, htake, hdrop, readFraction, htakeFraction, hdropFraction, hnat, he]

theorem readDecimal?_digits (hne : digits ≠ []) (h : IsDigits digits) :
    readDecimal? digits = some ⟨Nat.ofDigitChars 10 digits 0, 0⟩ := by
  have hend : ∀ c s, [] = c :: s → c.isDigit = false ∧ c ≠ '.' := fun _ _ ↦ nofun
  have hwhole := readDecimal?_whole hne h hend rfl
  rwa [List.append_nil] at hwhole

/-- An exponent of a numeral is read, however long it is. -/
theorem exists_readExponent?_eq (h : IsExponent exponent) :
    ∃ e, readExponent? exponent = some e := by
  rcases h with rfl | ⟨marker, sign, digits, rfl, hmarker, hsign, hne, hdigits⟩
  · exact ⟨0, rfl⟩
  have hread := readNat?_digits hne hdigits
  have hletter : marker = 'e' ∨ marker = 'E' := by
    simpa [Numeral.isExponentMarker] using hmarker
  obtain ⟨negative, hsigned⟩ : ∃ negative, readSign (sign ++ digits) = (negative, digits) := by
    simp only [List.mem_cons, List.not_mem_nil, or_false] at hsign
    rcases hsign with rfl | rfl | rfl
    · obtain ⟨c, digits, rfl⟩ := List.exists_cons_of_ne_nil hne
      exact ⟨false, readSign_cons_of_isDigit (hdigits c List.mem_cons_self)⟩
    · exact ⟨false, rfl⟩
    · exact ⟨true, rfl⟩
  rw [List.cons_append, readExponent?, if_pos hletter]
  simp only [hsigned, hread]
  exact ⟨_, rfl⟩

/-- Every numeral is read as a decimal. -/
theorem exists_readDecimal?_eq (h : IsNumeral numeral) : ∃ d, readDecimal? numeral = some d := by
  obtain ⟨whole, fraction, exponent, rfl, hne, hwhole, hfraction, hexponent⟩ := h
  have hrest : ∀ c s, exponent = c :: s → c.isDigit = false ∧ c ≠ '.' := by
    rintro c s heq
    rcases hexponent with rfl | ⟨marker, sign, digits, rfl, hmarker, -⟩
    · cases heq
    · cases heq
      exact Numeral.isDigit_eq_false_of_isExponentMarker hmarker
  obtain ⟨e, he⟩ := exists_readExponent?_eq hexponent
  rcases hfraction with rfl | ⟨places, rfl, hplaces⟩
  · rw [List.append_nil]
    exact ⟨_, readDecimal?_whole hne hwhole hrest he⟩
  · rw [List.append_assoc, List.cons_append]
    exact ⟨_, readDecimal?_point exponent hne hwhole hplaces (fun c s heq ↦ (hrest c s heq).1) he⟩

theorem toLower_of_isDigit {c : Char} (hc : c.isDigit) : c.toLower = c := by
  apply dif_neg
  rintro ⟨hletter, -⟩
  have habove : 65 ≤ c.toNat := UInt32.le_iff_toNat_le.mp hletter
  have hrange : 48 ≤ c.toNat ∧ c.toNat ≤ 57 := Char.isDigit_iff_toNat.mp hc
  omega

/-- What starts with a digit is none of the words that stand for special numbers. -/
theorem word_ne_of_isDigit (hc : c.isDigit) (s : List Char) :
    ∀ word ∈ ["nan", "inf", "infinity"], String.ofList ((c :: s).map Char.toLower) ≠ word := by
  have hletter : ∀ (word : String) (d : Char) (rest : List Char), word.toList = d :: rest →
      d.isDigit = false → String.ofList ((c :: s).map Char.toLower) ≠ word := by
    rintro word d rest hword hd rfl
    rw [String.toList_ofList, List.map_cons, toLower_of_isDigit hc] at hword
    rw [(List.cons.inj hword).1, hd] at hc
    cases hc
  simp only [List.forall_mem_cons]
  exact ⟨hletter _ 'n' ['a', 'n'] rfl rfl, hletter _ 'i' ['n', 'f'] rfl rfl,
    hletter _ 'i' ['n', 'f', 'i', 'n', 'i', 't', 'y'] rfl rfl, nofun⟩

theorem ofChars?_cons_of_isDigit (hc : c.isDigit) :
    ofChars? (c :: s) = (readDecimal? (c :: s)).map (finite false) := by
  have hword := word_ne_of_isDigit hc s
  simp only [List.forall_mem_cons] at hword
  simp only [ofChars?, readSign_cons_of_isDigit hc, hword, if_false, or_self]

theorem ofChars?_minus_cons_of_isDigit (hc : c.isDigit) :
    ofChars? ('-' :: c :: s) = (readDecimal? (c :: s)).map (finite true) := by
  have hword := word_ne_of_isDigit hc s
  simp only [List.forall_mem_cons] at hword
  simp only [ofChars?, readSign, hword, if_false, or_self]

theorem ofChars?_signed (negative : Bool) (hc : c.isDigit) :
    ofChars? ((if negative then ['-'] else []) ++ c :: s) =
      (readDecimal? (c :: s)).map (finite negative) := by
  cases negative with
  | false => exact ofChars?_cons_of_isDigit hc
  | true => exact ofChars?_minus_cons_of_isDigit hc

end ExtendedDecimal

/-- The text is a numeral, and it is read as the decimal. -/
structure Spells (s : List Char) (d : Decimal) : Prop where
  isNumeral : IsNumeral s
  readDecimal?_eq : ExtendedDecimal.readDecimal? s = some d

theorem Spells.value_eq (h : Spells numeral d) :
    (Token.number (String.ofList numeral)).value = .ok d.toFloat := by
  have hread := h.readDecimal?_eq
  obtain ⟨c, rest, rfl, hc⟩ := h.isNumeral.exists_cons
  rw [Token.value, readFloat?, String.toList_ofList, ExtendedDecimal.ofChars?_cons_of_isDigit hc,
    hread]
  rfl

theorem exists_spells (h : IsNumeral numeral) : ∃ d, Spells numeral d := by
  obtain ⟨d, hd⟩ := ExtendedDecimal.exists_readDecimal?_eq h
  exact ⟨d, h, hd⟩

theorem spells_digits (hne : digits ≠ []) (h : IsDigits digits) :
    Spells digits ⟨Nat.ofDigitChars 10 digits 0, 0⟩ :=
  ⟨h.isNumeral hne, ExtendedDecimal.readDecimal?_digits hne h⟩

theorem isDigits_toDigits (n : Nat) : IsDigits (Nat.toDigits 10 n) :=
  fun _ hc ↦ Nat.isDigit_of_mem_toDigits (by decide) (by decide) hc

end PocketCalculator
