import PocketCalculator.Proofs.Float.Sign

/-!
# Floats that are not below zero

Negative numbers and minus infinity are below zero; zeros of either sign are not, and neither is the
undefined number. What is not below zero stays so when it is added up, and when it is divided by
something above zero, even where the result is infinite or undefined (`not_add_lt_zero`,
`not_div_lt_zero`). What is infinite or undefined does not turn into a number again by adding to it
or dividing it by a number (`exists_of_exactValue?_add`, `exactValue?_div_eq_none`).
-/

namespace PocketCalculator

open Float.Model Float.Model.UnpackedFloat

variable {s t : Sign} {u v : UnpackedFloat} {x y : Float} {p q : ℚ}

/-- On the side of zero that the sign tells. Zeros and the undefined number are on neither side. -/
def IsBeyondZero (s : Sign) : UnpackedFloat → Prop
  | .finite t _ _ _ | .infinity t => t = s
  | .zero _ | .notANumber => False

theorem lt_zero_iff : x < 0 ↔ IsBeyondZero .negative x.toModel.unpack := by
  show decide ((UnpackedFloat.compare x.toModel.unpack (0 : Float).toModel.unpack == some .lt) =
    true) = true ↔ _
  rw [unpack_zero]
  generalize x.toModel.unpack = u
  cases u with
  | zero t | notANumber => exact ⟨nofun, nofun⟩
  | finite t m e hm | infinity t =>
    cases t with
    | negative => exact ⟨fun _ ↦ rfl, fun _ ↦ rfl⟩
    | positive => exact ⟨nofun, nofun⟩

theorem zero_lt_iff : 0 < x ↔ IsBeyondZero .positive x.toModel.unpack := by
  show decide ((UnpackedFloat.compare (0 : Float).toModel.unpack x.toModel.unpack == some .lt) =
    true) = true ↔ _
  rw [unpack_zero]
  generalize x.toModel.unpack = u
  cases u with
  | zero t | notANumber => exact ⟨nofun, nofun⟩
  | finite t m e hm | infinity t =>
    cases t with
    | negative => exact ⟨nofun, nofun⟩
    | positive => exact ⟨fun _ ↦ rfl, fun _ ↦ rfl⟩

theorem not_lt_zero_iff : ¬ x < 0 ↔ x.isNaN ∨ 0 ≤ x := by
  rw [lt_zero_iff]
  show _ ↔ x.toModel.unpack.isNaN = true ∨ decide ((UnpackedFloat.compare
    (0 : Float).toModel.unpack x.toModel.unpack).any Ordering.isLE = true) = true
  rw [unpack_zero]
  generalize x.toModel.unpack = u
  cases u with
  | zero t => exact ⟨fun _ ↦ .inr rfl, fun _ ↦ nofun⟩
  | notANumber => exact ⟨fun _ ↦ .inl rfl, fun _ ↦ nofun⟩
  | finite t m e hm | infinity t =>
    cases t with
    | negative => exact ⟨fun h ↦ absurd rfl h, fun h ↦ h.elim nofun nofun⟩
    | positive => exact ⟨fun _ ↦ .inr rfl, fun _ ↦ nofun⟩

theorem beq_zero_eq_false (h : 0 < x) : (x == 0) = false := by
  rw [zero_lt_iff] at h
  show (UnpackedFloat.compare x.toModel.unpack (0 : Float).toModel.unpack == some .eq) = false
  rw [unpack_zero]
  generalize x.toModel.unpack = u at h
  cases u with
  | zero t | notANumber => cases h
  | finite t m e hm | infinity t =>
    obtain rfl : t = .positive := h
    rfl

theorem IsBeyondZero.hasSign (h : IsBeyondZero s u) : HasSign s u := by
  cases u with
  | zero _ | notANumber => cases h
  | finite _ _ _ _ | infinity _ => exact h

theorem zero_lt_of_nonneg (h : 0 ≤ x) (hne : exactValue? x ≠ some 0) : 0 < x := by
  have hnot := not_lt_zero_iff.mpr (.inr h)
  rw [lt_zero_iff] at hnot
  rw [zero_lt_iff]
  change decide ((UnpackedFloat.compare (0 : Float).toModel.unpack x.toModel.unpack).any
    Ordering.isLE = true) = true at h
  rw [exactValue?] at hne
  generalize x.toModel.unpack = u at h hnot hne
  cases u with
  | zero t => exact absurd rfl hne
  | notANumber => cases h
  | finite t m e hm | infinity t =>
    cases t with
    | negative => exact absurd rfl hnot
    | positive => rfl

theorem eq_infinity_of_zero_lt (h : 0 < x) (hinfinite : exactValue? x = none) : x = 1 / 0 := by
  apply eq_infinity_of_not_isFinite (zero_lt_iff.mp h).hasSign
  rw [Bool.eq_false_iff]
  intro hfinite
  obtain ⟨q, hq⟩ := isFinite_iff_exactValue?.mp hfinite
  rw [hinfinite] at hq
  cases hq

theorem HasSign.eq_of_isBeyondZero (h : HasSign t u) (hu : IsBeyondZero s u) : t = s := by
  cases u with
  | zero _ | notANumber => cases hu
  | finite _ _ _ _ | infinity _ => exact h.symm.trans hu

theorem HasSign.not_isBeyondZero (h : HasSign .positive u) : ¬ IsBeyondZero .negative u := by
  intro hu
  cases h.eq_of_isBeyondZero hu

theorem Denotes.exists_eq_zero (h : Denotes u 0) : ∃ s, u = .zero s := by
  generalize hq : (0 : ℚ) = q at h
  cases h with
  | zero s => exact ⟨s, rfl⟩
  | @finite s m e hm hu =>
    have hpos : (0 : ℚ) < m * 2 ^ e := by positivity
    have hzero : |signed s (m * 2 ^ e)| = 0 := abs_eq_zero.mpr hq.symm
    rw [abs_signed, abs_of_pos hpos] at hzero
    exact absurd hzero hpos.ne'

theorem beq_zero_iff : x == 0 ↔ exactValue? x = some 0 := by
  constructor
  · intro h
    change (UnpackedFloat.compare x.toModel.unpack (0 : Float).toModel.unpack == some .eq) = true
      at h
    rw [unpack_zero] at h
    rw [exactValue?]
    generalize x.toModel.unpack = u at h
    cases u with
    | zero t => rfl
    | notANumber => cases h
    | finite t m e hm | infinity t => cases t <;> cases h
  · intro h
    exact (beq_iff_of_exactValue? h exactValue?_zero).mpr rfl

theorem exactValue?_eq_of_beq (h : x == y) : exactValue? x = exactValue? y := by
  obtain ⟨-, -, rfl | ⟨rfl, rfl⟩ | ⟨rfl, rfl⟩⟩ := Float.beq_iff_ne_nan_and_eq.mp h
  · rfl
  · rw [exactValue?_neg, exactValue?_zero, Option.map_some, neg_zero]
  · rw [exactValue?_neg, exactValue?_zero, Option.map_some, neg_zero]

theorem exactValue?_ne_of_zero_lt (h : 0 < x) : exactValue? x ≠ some 0 := by
  intro hzero
  exact absurd (beq_zero_iff.mpr hzero) (by simp [beq_zero_eq_false h])

/-- Storing may bring a number down to zero, but not across it. -/
theorem IsBeyondZero.of_stored (h : IsBeyondZero s (unpack .binary64 (pack .binary64 u))) :
    IsBeyondZero s u := by
  cases u with
  | zero t =>
    rw [UnpackedFloat.pack, unpack_packedZero] at h
    exact h
  | notANumber => cases h
  | finite t m e hm | infinity t =>
    exact HasSign.eq_of_isBeyondZero (HasSign.stored (by rfl)) h

/-! ### Sums -/

theorem not_isBeyondZero_normalize {c e : ℤ} (hc : 0 ≤ c) :
    ¬ IsBeyondZero .negative (UnpackedFloat.normalize .binary64 c e .positive) := by
  rw [UnpackedFloat.normalize]
  rcases hc.eq_or_lt with rfl | hpos
  · rw [Int.compare_eq_eq.mpr rfl]
    exact id
  · rw [Int.compare_eq_gt.mpr hpos]
    exact (hasSign_roundWithAccuracy .positive _ _ _).not_isBeyondZero

theorem not_isBeyondZero_add (hu : ¬ IsBeyondZero .negative u) (hv : ¬ IsBeyondZero .negative v) :
    ¬ IsBeyondZero .negative (UnpackedFloat.add .binary64 u v) := by
  cases u with
  | notANumber => exact id
  | zero s =>
    cases v with
    | zero t =>
      rw [UnpackedFloat.add]
      split <;> exact id
    | _ => exact hv
  | infinity s =>
    cases v with
    | infinity t =>
      rw [UnpackedFloat.add]
      split
      · exact hu
      · exact id
    | notANumber => exact id
    | _ => exact hu
  | finite s m e hm =>
    cases v with
    | notANumber => exact id
    | zero t => exact hu
    | infinity t => exact hv
    | finite t n f hn =>
      cases s with
      | negative => exact absurd rfl hu
      | positive =>
        cases t with
        | negative => exact absurd rfl hv
        | positive =>
          apply not_isBeyondZero_normalize
          exact add_nonneg (Int.natCast_nonneg _) (Int.natCast_nonneg _)

theorem not_add_lt_zero (hx : ¬ x < 0) (hy : ¬ y < 0) : ¬ x + y < 0 := by
  rw [lt_zero_iff] at hx hy ⊢
  exact fun h ↦ not_isBeyondZero_add hx hy h.of_stored

/-! ### Quotients -/

theorem not_isBeyondZero_div (hu : ¬ IsBeyondZero .negative u) (hv : IsBeyondZero .positive v) :
    ¬ IsBeyondZero .negative (UnpackedFloat.div .binary64 u v) := by
  cases u with
  | notANumber => exact id
  | zero s =>
    cases v with
    | zero t | notANumber => cases hv
    | finite t n f hn | infinity t => exact id
  | infinity s =>
    cases v with
    | zero t | notANumber => cases hv
    | infinity t => exact id
    | finite t n f hn =>
      obtain rfl : t = .positive := hv
      cases s with
      | negative => exact absurd rfl hu
      | positive => exact HasSign.not_isBeyondZero rfl
  | finite s m e hm =>
    cases v with
    | zero t | notANumber => cases hv
    | infinity t => exact id
    | finite t n f hn =>
      obtain rfl : t = .positive := hv
      cases s with
      | negative => exact absurd rfl hu
      | positive => exact (hasSign_roundWithAccuracy .positive _ _ _).not_isBeyondZero

theorem not_div_lt_zero (hx : ¬ x < 0) (hy : 0 < y) : ¬ x / y < 0 := by
  rw [lt_zero_iff] at hx ⊢
  rw [zero_lt_iff] at hy
  exact fun h ↦ not_isBeyondZero_div hx hy h.of_stored

/-! ### Infinite and undefined parts -/

theorem storedValue?_notANumber : storedValue? .notANumber = none := by
  have hstored : unpack .binary64 (pack .binary64 .notANumber) = .notANumber := by rfl
  rw [storedValue?, hstored]
  rfl

theorem storedValue?_infinity (s : Sign) : storedValue? (.infinity s) = none := by
  cases s <;> rfl

theorem storedValue?_add_eq_none (h : unpackedValue? u = none ∨ unpackedValue? v = none) :
    storedValue? (UnpackedFloat.add .binary64 u v) = none := by
  cases u with
  | notANumber => exact storedValue?_notANumber
  | infinity s =>
    cases v with
    | notANumber => exact storedValue?_notANumber
    | infinity t =>
      rw [UnpackedFloat.add]
      split
      · exact storedValue?_infinity s
      · exact storedValue?_notANumber
    | zero _ | finite _ _ _ _ => exact storedValue?_infinity s
  | zero _ | finite _ _ _ _ =>
    cases v with
    | notANumber => exact storedValue?_notANumber
    | infinity t => exact storedValue?_infinity t
    | zero _ | finite _ _ _ _ => rcases h with h | h <;> cases h

/-- A finite sum has finite parts. -/
theorem exists_of_exactValue?_add (h : exactValue? (x + y) = some q) :
    (∃ p, exactValue? x = some p) ∧ ∃ p, exactValue? y = some p := by
  rw [← Option.ne_none_iff_exists', ← Option.ne_none_iff_exists', ← not_or]
  intro hnone
  have hsum : exactValue? (x + y) = none := storedValue?_add_eq_none hnone
  rw [h] at hsum
  cases hsum

theorem exactValue?_div_eq_none {p : ℚ} (hx : exactValue? x = none) (hy : exactValue? y = some p) :
    exactValue? (x / y) = none := by
  show storedValue? (UnpackedFloat.div .binary64 x.toModel.unpack y.toModel.unpack) = none
  rw [exactValue?] at hx hy
  generalize x.toModel.unpack = u at hx ⊢
  generalize y.toModel.unpack = v at hy ⊢
  cases u with
  | zero _ | finite _ _ _ _ => cases hx
  | notANumber => exact storedValue?_notANumber
  | infinity s =>
    cases v with
    | notANumber | infinity _ => cases hy
    | zero _ | finite _ _ _ _ => exact storedValue?_infinity _

theorem exactValue?_zero_div (hx : exactValue? x = some 0) (hy : 0 < y) :
    exactValue? (x / y) = some 0 := by
  have hzero := exactValue?_eq_some_iff.mp hx
  rw [zero_lt_iff] at hy
  show storedValue? (UnpackedFloat.div .binary64 x.toModel.unpack y.toModel.unpack) = some 0
  obtain ⟨s, hs⟩ := hzero.exists_eq_zero
  rw [hs]
  generalize y.toModel.unpack = v at hy ⊢
  cases v with
  | zero _ | notANumber => cases hy
  | finite _ _ _ _ | infinity _ => exact (Denotes.zero _).storedValue?_eq

end PocketCalculator
