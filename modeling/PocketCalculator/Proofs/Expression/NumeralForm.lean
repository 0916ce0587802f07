import Mathlib.Tactic.Common
import PocketCalculator.Expression.Numeral

/-!
# The form of a numeral

A numeral is digits, a fraction that may be missing, and an exponent that may be missing. What is
split off the front of a text has this form (`Numeral.isNumeral_span`), and every numeral at the
front of the text lies within it (`Numeral.prefix_span`).

Some characters end every numeral. Behind one of them nothing can change how the text before it is
split (`Numeral.span_append_separator`).
-/

namespace PocketCalculator

namespace Numeral

def IsDigits (s : List Char) : Prop :=
  ∀ c ∈ s, c.isDigit

/-- Nothing, or a point with any digits after it. -/
def IsFraction (s : List Char) : Prop :=
  s = [] ∨ ∃ digits, s = '.' :: digits ∧ IsDigits digits

/-- Nothing, or a marker, perhaps a sign, and one digit at least. -/
def IsExponent (s : List Char) : Prop :=
  s = [] ∨ ∃ marker sign digits, s = marker :: sign ++ digits ∧ isExponentMarker marker ∧
    sign ∈ [[], ['+'], ['-']] ∧ digits ≠ [] ∧ IsDigits digits

def IsNumeral (s : List Char) : Prop :=
  ∃ whole fraction exponent, s = whole ++ fraction ++ exponent ∧ whole ≠ [] ∧ IsDigits whole ∧
    IsFraction fraction ∧ IsExponent exponent

theorem IsDigits.append {s t : List Char} (hs : IsDigits s) (ht : IsDigits t) :
    IsDigits (s ++ t) := by
  intro c hc
  exact (List.mem_append.mp hc).elim (hs c) (ht c)

theorem isDigits_replicate_zero (k : Nat) : IsDigits (List.replicate k '0') := by
  intro c hc
  rw [List.eq_of_mem_replicate hc]
  rfl

theorem IsDigits.isNumeral {s : List Char} (h : IsDigits s) (hne : s ≠ []) : IsNumeral s :=
  ⟨s, [], [], by rw [List.append_nil, List.append_nil], hne, h, .inl rfl, .inl rfl⟩

theorem IsNumeral.exists_cons {s : List Char} (h : IsNumeral s) :
    ∃ c rest, s = c :: rest ∧ c.isDigit := by
  obtain ⟨whole, fraction, exponent, rfl, hne, hwhole, -, -⟩ := h
  obtain ⟨c, whole, rfl⟩ := List.exists_cons_of_ne_nil hne
  exact ⟨c, whole ++ fraction ++ exponent, rfl, hwhole c List.mem_cons_self⟩

/-! ### What is split off is a numeral -/

theorem isDigits_spanDigits (s : List Char) : IsDigits (spanDigits s).1 :=
  fun c hc ↦ List.all_eq_true.mp List.all_takeWhile c hc

theorem isFraction_spanFraction (s : List Char) : IsFraction (spanFraction s).1 := by
  unfold spanFraction
  split
  · next s =>
    right
    exact ⟨(spanDigits s).1, rfl, isDigits_spanDigits s⟩
  · left
    rfl

theorem spanSign_mem (s : List Char) : (spanSign s).1 ∈ [[], ['+'], ['-']] := by
  unfold spanSign
  split <;> simp

theorem isExponent_spanExponent (s : List Char) : IsExponent (spanExponent s).1 := by
  cases s with
  | nil =>
    left
    rfl
  | cons c s =>
    simp only [spanExponent]
    split
    · next h =>
      rw [Bool.and_eq_true, Bool.not_eq_true', List.isEmpty_eq_false_iff] at h
      right
      exact ⟨c, _, _, rfl, h.1, spanSign_mem s, h.2, isDigits_spanDigits _⟩
    · left
      rfl

theorem isNumeral_span {c : Char} (s : List Char) (hc : c.isDigit) :
    IsNumeral (span (c :: s)).1 := by
  refine ⟨_, _, _, rfl, ?_, isDigits_spanDigits _, isFraction_spanFraction _,
    isExponent_spanExponent _⟩
  simp [spanDigits, hc]

/-! ### It is the longest -/

/-- Where digits are followed by no digit, exactly they are split off. -/
theorem spanDigits_append_cons {digits : List Char} (h : IsDigits digits) {c : Char}
    (hc : c.isDigit = false) (s : List Char) :
    spanDigits (digits ++ c :: s) = (digits, c :: s) := by
  have htake : (digits ++ c :: s).takeWhile Char.isDigit =
      digits ++ (c :: s).takeWhile Char.isDigit :=
    List.takeWhile_append_of_pos h
  have hdrop : (digits ++ c :: s).dropWhile Char.isDigit = (c :: s).dropWhile Char.isDigit :=
    List.dropWhile_append_of_pos h
  rw [List.takeWhile_cons_of_neg (by simp [hc]), List.append_nil] at htake
  rw [List.dropWhile_cons_of_neg (by simp [hc])] at hdrop
  rw [spanDigits, htake, hdrop]

theorem prefix_spanDigits {digits : List Char} (h : IsDigits digits) (s : List Char) :
    digits <+: (spanDigits (digits ++ s)).1 := by
  have htake : (digits ++ s).takeWhile Char.isDigit = digits ++ s.takeWhile Char.isDigit :=
    List.takeWhile_append_of_pos h
  rw [spanDigits, htake]
  exact List.prefix_append digits _

theorem isDigit_eq_false_of_isExponentMarker {c : Char} (h : isExponentMarker c) :
    c.isDigit = false ∧ c ≠ '.' := by
  rw [isExponentMarker, Bool.or_eq_true, beq_iff_eq, beq_iff_eq] at h
  rcases h with rfl | rfl
  · decide
  · decide

theorem prefix_spanExponent {exponent : List Char} (h : IsExponent exponent) (s : List Char) :
    exponent <+: (spanExponent (exponent ++ s)).1 := by
  rcases h with rfl | ⟨marker, sign, digits, rfl, hmarker, hsign, hne, hdigits⟩
  · exact List.nil_prefix
  have hspanSign : spanSign (sign ++ (digits ++ s)) = (sign, digits ++ s) := by
    obtain ⟨d, digits, rfl⟩ := List.exists_cons_of_ne_nil hne
    have hd : d.isDigit := hdigits d List.mem_cons_self
    simp only [List.mem_cons, List.not_mem_nil, or_false] at hsign
    rcases hsign with rfl | rfl | rfl
    · have hplus : d ≠ '+' := by rintro rfl; cases hd
      have hminus : d ≠ '-' := by rintro rfl; cases hd
      simp [spanSign, hplus, hminus]
    · rfl
    · rfl
  have hprefix := prefix_spanDigits hdigits s
  have hsome : (spanDigits (digits ++ s)).1.isEmpty = false := by
    rw [List.isEmpty_eq_false_iff]
    intro hnil
    rw [hnil, List.prefix_nil] at hprefix
    exact hne hprefix
  rw [List.append_assoc, List.cons_append, List.cons_append, spanExponent, hspanSign, hmarker,
    hsome]
  simpa using hprefix

/-- Digits that a fraction or an exponent follows are split off as they are. -/
theorem spanDigits_append_of_ne_nil {digits fraction exponent : List Char}
    (h : IsDigits digits) (hfraction : IsFraction fraction) (hexponent : IsExponent exponent)
    (hne : fraction ++ exponent ≠ []) (s : List Char) :
    spanDigits (digits ++ (fraction ++ exponent ++ s)) = (digits, fraction ++ exponent ++ s) := by
  rcases hfraction with rfl | ⟨places, rfl, -⟩
  · rcases hexponent with rfl | ⟨marker, sign, power, rfl, hmarker, -⟩
    · exact absurd rfl hne
    · exact spanDigits_append_cons h (isDigit_eq_false_of_isExponentMarker hmarker).1 _
  · exact spanDigits_append_cons h (by decide) _

theorem spanFraction_append_exponent {fraction exponent : List Char} (h : IsFraction fraction)
    (hexponent : IsExponent exponent) (hne : exponent ≠ []) (s : List Char) :
    spanFraction (fraction ++ (exponent ++ s)) = (fraction, exponent ++ s) := by
  rcases hexponent with rfl | ⟨marker, sign, power, rfl, hmarker, -⟩
  · exact absurd rfl hne
  obtain ⟨hdigit, hpoint⟩ := isDigit_eq_false_of_isExponentMarker hmarker
  rcases h with rfl | ⟨places, rfl, hplaces⟩
  · simp [spanFraction, hpoint]
  · have hspan := spanDigits_append_cons hplaces hdigit (sign ++ (power ++ s))
    simp [spanFraction, hspan]

theorem prefix_spanFraction {fraction : List Char} (h : IsFraction fraction) (s : List Char) :
    fraction <+: (spanFraction (fraction ++ s)).1 := by
  rcases h with rfl | ⟨places, rfl, hplaces⟩
  · exact List.nil_prefix
  · exact List.cons_prefix_cons.mpr ⟨rfl, prefix_spanDigits hplaces s⟩

/-- A numeral at the front of a text is no longer than the one that is split off. -/
theorem prefix_span {numeral : List Char} (h : IsNumeral numeral) (s : List Char) :
    numeral <+: (span (numeral ++ s)).1 := by
  obtain ⟨whole, fraction, exponent, rfl, -, hwhole, hfraction, hexponent⟩ := h
  by_cases hrest : fraction ++ exponent = []
  · -- Only digits: more digits may follow, and more than digits.
    obtain ⟨rfl, rfl⟩ := List.append_eq_nil_iff.mp hrest
    have hdigits := prefix_spanDigits hwhole s
    rw [span, List.append_nil, List.append_nil, List.append_assoc]
    exact hdigits.trans (List.prefix_append _ _)
  have hspan := spanDigits_append_of_ne_nil hwhole hfraction hexponent hrest s
  have happend : whole ++ fraction ++ exponent ++ s = whole ++ (fraction ++ exponent ++ s) := by
    simp only [List.append_assoc]
  rw [span, happend, hspan, List.append_assoc whole, List.append_assoc whole,
    List.prefix_append_right_inj]
  by_cases hne : exponent = []
  · rw [hne, List.append_nil]
    exact (prefix_spanFraction hfraction s).trans (List.prefix_append _ _)
  · rw [List.append_assoc fraction, spanFraction_append_exponent hfraction hexponent hne,
      List.prefix_append_right_inj]
    exact prefix_spanExponent hexponent s

theorem IsNumeral.span_eq {s : List Char} (h : IsNumeral s) : span s = (s, []) := by
  have hfront := prefix_span h []
  rw [List.append_nil] at hfront
  have happend := span_append s
  have hfirst : (span s).1 = s :=
    (hfront.eq_of_length_le (by
      rw [← congrArg List.length happend, List.length_append]
      exact Nat.le_add_right _ _)).symm
  rw [hfirst, List.append_right_eq_self] at happend
  exact Prod.ext hfirst happend

/-- A numeral that is split off a text is split off as well when the text ends earlier. -/
theorem IsNumeral.span_append_of_append {numeral rest later : List Char} (h : IsNumeral numeral)
    (hspan : span (numeral ++ (rest ++ later)) = (numeral, rest ++ later)) :
    span (numeral ++ rest) = (numeral, rest) := by
  obtain ⟨c, digits, hnumeral, hc⟩ := h.exists_cons
  have happend := span_append (numeral ++ rest)
  have hshorter : IsNumeral (span (numeral ++ rest)).1 := by
    rw [hnumeral, List.cons_append]
    exact isNumeral_span _ hc
  have hlonger := prefix_span hshorter ((span (numeral ++ rest)).2 ++ later)
  rw [← List.append_assoc, happend, List.append_assoc, hspan] at hlonger
  have hfirst : (span (numeral ++ rest)).1 = numeral :=
    hlonger.eq_of_length_le (prefix_span h rest).length_le
  rw [hfirst, List.append_cancel_left_eq] at happend
  exact Prod.ext hfirst happend

/-! ### Separators -/

/-- Whether a character can stand in no numeral. -/
def isSeparator (c : Char) : Bool :=
  !c.isDigit && c != '.' && !isExponentMarker c && c != '+' && c != '-'

/-- A separator stands in no numeral. -/
theorem IsNumeral.isSeparator_eq_false {numeral : List Char} (h : IsNumeral numeral) :
    ∀ c ∈ numeral, isSeparator c = false := by
  have hdigits : ∀ digits, IsDigits digits → ∀ c ∈ digits, isSeparator c = false := by
    intro digits h c hc
    simp [isSeparator, h c hc]
  obtain ⟨whole, fraction, exponent, rfl, -, hwhole, hfraction, hexponent⟩ := h
  simp only [List.forall_mem_append]
  refine ⟨⟨hdigits _ hwhole, ?_⟩, ?_⟩
  · rcases hfraction with rfl | ⟨places, rfl, hplaces⟩
    · exact nofun
    · exact List.forall_mem_cons.mpr ⟨by decide, hdigits _ hplaces⟩
  · rcases hexponent with rfl | ⟨marker, sign, power, rfl, hmarker, hsign, -, hpower⟩
    · exact nofun
    · simp only [List.cons_append, List.forall_mem_cons, List.forall_mem_append]
      refine ⟨by simp [isSeparator, hmarker], ?_, hdigits _ hpower⟩
      simp only [List.mem_cons, List.not_mem_nil, or_false] at hsign
      rcases hsign with rfl | rfl | rfl <;> simp [isSeparator]

section Separator

variable {c : Char} (hc : isSeparator c) (s t : List Char)

include hc

theorem spanDigits_append_separator :
    spanDigits (s ++ c :: t) = ((spanDigits s).1, (spanDigits s).2 ++ c :: t) := by
  have hdigit : ¬ c.isDigit := by simp_all [isSeparator]
  induction s with
  | nil => simp [spanDigits, hdigit]
  | cons d s ih =>
    rw [spanDigits, spanDigits, Prod.mk.injEq] at ih
    by_cases hd : d.isDigit
    · simp [spanDigits, hd, ih.1, ih.2]
    · simp [spanDigits, hd]

theorem spanFraction_append_separator :
    spanFraction (s ++ c :: t) = ((spanFraction s).1, (spanFraction s).2 ++ c :: t) := by
  have hpoint : c ≠ '.' := by simp_all [isSeparator]
  cases s with
  | nil => simp [spanFraction, hpoint]
  | cons d s =>
    by_cases hd : d = '.'
    · simp [spanFraction, hd, spanDigits_append_separator hc]
    · simp [spanFraction, hd]

theorem spanSign_append_separator :
    spanSign (s ++ c :: t) = ((spanSign s).1, (spanSign s).2 ++ c :: t) := by
  have hsign : c ≠ '+' ∧ c ≠ '-' := by simp_all [isSeparator]
  cases s with
  | nil => simp [spanSign, hsign.1, hsign.2]
  | cons d s =>
    by_cases hplus : d = '+'
    · simp [spanSign, hplus]
    · by_cases hminus : d = '-'
      · simp [spanSign, hminus]
      · simp [spanSign, hplus, hminus]

theorem spanExponent_append_separator :
    spanExponent (s ++ c :: t) = ((spanExponent s).1, (spanExponent s).2 ++ c :: t) := by
  have hmarker : isExponentMarker c = false := by simp_all [isSeparator]
  cases s with
  | nil => simp [spanExponent, hmarker]
  | cons d s =>
    rw [List.cons_append, spanExponent, spanExponent, spanSign_append_separator hc,
      spanDigits_append_separator hc]
    split <;> rfl

/-- What follows a separator does not change the numeral before it. -/
theorem span_append_separator :
    span (s ++ c :: t) = ((span s).1, (span s).2 ++ c :: t) := by
  simp only [span, spanDigits_append_separator hc, spanFraction_append_separator hc,
    spanExponent_append_separator hc]

end Separator

end Numeral

end PocketCalculator
