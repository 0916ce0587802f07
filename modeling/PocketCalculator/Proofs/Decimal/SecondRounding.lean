import PocketCalculator.Proofs.Decimal.Places

/-!
# Rounding to decimal places a second time

A number of units is divided to give the number shown, which is the nearest float of the quotient.
Multiplied again, it is off by less than a third of a unit where floats are half a unit apart or
less. Rounding then finds the same units, but for the products between a quarter and a half above
them where floats are exactly half a unit apart: the nearest float is the half, and the half goes
up (`roundHalfAway_nearest_eq`). Where floats are a unit apart or more, the number shown comes out
again (`toPlaces_of_two_pow_le`). So the number drifts in one binade only (`toPlaces_toPlaces_iff`).
-/

namespace PocketCalculator

variable {N n : ℤ} {p q y : ℚ}

theorem roundHalfAway_eq_of_le_of_lt (hq : 0 ≤ q) (hle : n - 1 / 2 ≤ q) (hlt : q < n + 1 / 2) :
    roundHalfAway q = n := by
  rw [roundHalfAway_of_nonneg hq, Int.floor_eq_iff]
  constructor <;> linarith

/-- The quotient by the units is off by half a place at most, and so the product by half a place
times the units. -/
theorem abs_nearest_div_mul_sub_le (p : ℚ) :
    |nearest (p / 10 ^ 7) * 10 ^ 7 - p| ≤ 10 ^ 7 * 2 ^ lastPlace (nearest (p / 10 ^ 7)) / 2 := by
  have herror := abs_nearest_sub_le (p / 10 ^ 7)
  have hplace : (2 : ℚ) ^ lastPlace (p / 10 ^ 7) ≤ 2 ^ lastPlace (nearest (p / 10 ^ 7)) :=
    zpow_le_zpow_right₀ (by norm_num) (lastPlace_le_lastPlace_nearest _)
  have hscaled : nearest (p / 10 ^ 7) * 10 ^ 7 - p =
      (nearest (p / 10 ^ 7) - p / 10 ^ 7) * 10 ^ 7 := by
    field_simp
  rw [hscaled, abs_mul, abs_of_pos (by positivity : (0 : ℚ) < 10 ^ 7)]
  linarith

theorem nearest_units_pos (hN : 0 < N) : 0 < nearest ((N : ℚ) / 10 ^ 7) := by
  have hone : (1 : ℚ) ≤ N := by
    exact_mod_cast hN
  have hsmall : Representable (2 ^ (-24 : ℤ)) :=
    ⟨1, -24, by norm_num, by norm_num, by norm_num, by norm_num⟩
  have hle : (2 : ℚ) ^ (-24 : ℤ) ≤ N / 10 ^ 7 := by
    rw [le_div_iff₀ (by positivity)]
    norm_num
    linarith
  have hmono := nearest_mono hle
  rw [nearest_of_representable hsmall] at hmono
  exact lt_of_lt_of_le (by positivity) hmono

/-- A float that is close to a number with its first digit at place `k + 52` or above ends at the
place `k`. -/
theorem exists_eq_mul_two_zpow {k : ℤ} (hfloat : nearest p = p) (hle : 2 ^ (k + 52) ≤ y)
    (hclose : y - p < 2 ^ k / 2) : ∃ n : ℤ, p = n * 2 ^ k := by
  have hdigits : p = roundHalfEven (p / 2 ^ lastPlace p) * 2 ^ lastPlace p := by
    rw [← nearest, hfloat]
  rcases le_or_gt k (lastPlace p) with hplace | hplace
  · obtain ⟨j, hj⟩ := Int.le.dest hplace
    refine ⟨roundHalfEven (p / 2 ^ lastPlace p) * 2 ^ j, ?_⟩
    push_cast
    rw [mul_assoc, ← zpow_natCast, ← zpow_add₀ (by norm_num), add_comm, hj, ← hdigits]
  · -- Floats that end before the place are too small, by half a unit of the place.
    exfalso
    obtain ⟨c, hc⟩ : ∃ c, c = roundHalfEven (p / 2 ^ lastPlace p) := ⟨_, rfl⟩
    rw [← hc] at hdigits
    have hpow : (0 : ℚ) < 2 ^ lastPlace p := by positivity
    have hbelow := (le_abs_self p).trans_lt (abs_lt_two_zpow_lastPlace p)
    have hlt : (c : ℚ) < 2 ^ 53 := by
      rw [add_comm, zpow_add₀ (by norm_num), ← div_lt_iff₀ hpow] at hbelow
      rw [eq_div_of_mul_eq hpow.ne' hdigits.symm]
      exact_mod_cast hbelow
    have hmost : (c : ℚ) ≤ 2 ^ 53 - 1 := by
      have hint : c < 2 ^ 53 := by exact_mod_cast hlt
      exact_mod_cast Int.le_sub_one_of_lt hint
    have hhalf : (2 : ℚ) ^ lastPlace p ≤ 2 ^ k / 2 := by
      rw [div_eq_mul_inv, ← zpow_neg_one, ← zpow_add₀ (by norm_num)]
      exact zpow_le_zpow_right₀ (by norm_num) (by omega)
    have hproduct : p ≤ (2 ^ 53 - 1) * (2 ^ k / 2) := by
      rw [hdigits]
      exact mul_le_mul hmost hhalf hpow.le (by norm_num)
    rw [zpow_add₀ (by norm_num)] at hle
    norm_num only at hle hproduct
    linarith

/-- Where floats are half a unit apart, they are the halves of integers. -/
theorem nearest_eq_roundHalfEven_div_two (hle : 2 ^ 51 ≤ y) (hlt : y < 2 ^ 52) :
    nearest y = roundHalfEven (2 * y) / 2 := by
  have hpos : 0 < y := by linarith
  have hplace : lastPlace y = -1 := by
    apply lastPlace_eq_of_le_of_lt _ _ (by norm_num) <;> rw [abs_of_pos hpos] <;> norm_num <;>
      linarith
  rw [nearest, hplace, zpow_neg_one, div_inv_eq_mul, mul_comm y]
  rfl

/-- Where floats are a unit apart or more, they are integers. -/
theorem roundHalfAway_nearest_of_lastPlace (h : 0 ≤ lastPlace y) :
    (roundHalfAway (nearest y) : ℚ) = nearest y := by
  obtain ⟨j, hj⟩ := Int.eq_ofNat_of_zero_le h
  have hinteger : nearest y = ((roundHalfEven (y / 2 ^ j) * 2 ^ j : ℤ) : ℚ) := by
    rw [nearest, hj, zpow_natCast]
    push_cast
    rfl
  rw [hinteger, roundHalfAway_intCast]

section Units

variable (hN : 0 < N) (hq : q = nearest (N / 10 ^ 7)) (hy : y = q * 10 ^ 7)
include hN hq hy

theorem abs_sub_units_le {k : ℤ} (hk : -1074 ≤ k) (hlt : q < 2 ^ (k + 53)) :
    |y - N| ≤ 10 ^ 7 * 2 ^ k / 2 := by
  have hpos : 0 < q := by
    rw [hq]
    exact nearest_units_pos hN
  have hplace : (2 : ℚ) ^ lastPlace q ≤ 2 ^ k := by
    apply zpow_le_zpow_right₀ (by norm_num)
    exact lastPlace_le_of_abs_lt hpos.ne' (by rwa [abs_of_pos hpos]) hk
  have herror := abs_nearest_div_mul_sub_le (N : ℚ)
  rw [← hq, ← hy] at herror
  linarith

/-- Floats are a quarter of a unit apart at most. -/
theorem roundHalfAway_nearest_of_lt (hlt : y < 2 ^ 51) : roundHalfAway (nearest y) = N := by
  have hpos : 0 < y := by
    rw [hy, hq]
    exact mul_pos (nearest_units_pos hN) (by positivity)
  have hunits : |y - N| ≤ 10 ^ 7 * 2 ^ (-25 : ℤ) / 2 := by
    apply abs_sub_units_le hN hq hy (by norm_num)
    norm_num
    linarith
  have hplace : (2 : ℚ) ^ lastPlace y ≤ 2 ^ (-2 : ℤ) := by
    apply zpow_le_zpow_right₀ (by norm_num)
    apply lastPlace_le_of_abs_lt hpos.ne' _ (by norm_num)
    rw [abs_of_pos hpos]
    norm_num
    linarith
  have hrounded := abs_nearest_sub_le y
  rw [abs_le] at hunits hrounded
  norm_num at hunits hplace
  apply roundHalfAway_eq_of_le_of_lt (nearest_nonneg hpos.le)
  · linarith
  · linarith

/-- Floats are half a unit apart. Products halfway between two of them are rounded to the whole
one, because twice a whole number is even. -/
theorem roundHalfAway_nearest_eq (hle : 2 ^ 51 ≤ y) (hlt : y < 2 ^ 52) :
    roundHalfAway (nearest y) = if 1 / 4 < y - N then N + 1 else N := by
  have hpos : 0 < y := by linarith
  have hunits : |y - N| ≤ 10 ^ 7 * 2 ^ (-24 : ℤ) / 2 := by
    apply abs_sub_units_le hN hq hy (by norm_num)
    norm_num
    linarith
  have hnearest := nearest_eq_roundHalfEven_div_two hle hlt
  rw [abs_le] at hunits
  norm_num at hunits
  have hnonneg := nearest_nonneg hpos.le
  split
  · next hquarter =>
    have hhalf : roundHalfEven (2 * y) = 2 * N + 1 := by
      apply roundHalfEven_eq_of_abs_sub_lt
      rw [abs_lt]
      push_cast
      constructor <;> linarith
    rw [hhalf] at hnearest
    push_cast at hnearest
    apply roundHalfAway_eq_of_le_of_lt hnonneg
    · push_cast
      linarith
    · push_cast
      linarith
  · next hquarter =>
    have hupper : roundHalfEven (2 * y) ≤ 2 * N := by
      rw [← roundHalfEven_even_add_half]
      apply roundHalfEven_mono
      linarith
    have hlower : 2 * N - 1 ≤ roundHalfEven (2 * y) := by
      rw [← roundHalfEven_intCast (2 * N - 1)]
      apply roundHalfEven_mono
      push_cast
      linarith
    have hupper' : (roundHalfEven (2 * y) : ℚ) ≤ 2 * N := by exact_mod_cast hupper
    have hlower' : (2 * N - 1 : ℚ) ≤ roundHalfEven (2 * y) := by exact_mod_cast hlower
    apply roundHalfAway_eq_of_le_of_lt hnonneg
    · linarith
    · linarith

/-- The units end at the last place of the product, which is near enough to find them. -/
theorem toPlaces_of_lt_two_zpow {k : ℤ} (hfloat : nearest N = N) (hk : 0 ≤ k)
    (hplace : lastPlace y = k) (hfull : 2 ^ (k + 52) ≤ y) (hshort : q < 2 ^ (k + 29)) :
    toPlaces q = q := by
  have hunits : |y - N| ≤ 10 ^ 7 * 2 ^ (k + -24) / 2 := by
    apply abs_sub_units_le hN hq hy (by omega)
    rwa [add_assoc]
  have hclose : |y - N| < 2 ^ k / 2 := by
    have hgap : (0 : ℚ) < 2 ^ k := by positivity
    rw [zpow_add₀ (by norm_num)] at hunits
    norm_num only at hunits
    linarith
  obtain ⟨n, hn⟩ := exists_eq_mul_two_zpow hfloat hfull (abs_lt.mp hclose).2
  have hnearest : nearest y = N := by
    rw [hn, ← hplace]
    apply nearest_eq_of_abs_sub_lt
    rwa [hplace, ← hn]
  rw [toPlaces, ← hy, hnearest, roundHalfAway_intCast, ← hq]

omit hN hq

/-- Any number that the product is rounded to is divided to a number with the number shown as its
nearest float. -/
theorem toPlaces_of_two_zpow_le {k : ℤ} (hself : nearest q = q) (hk : 0 ≤ k)
    (hplace : lastPlace y = k) (hbelow : y < 2 ^ (k + 53)) (hlong : 2 ^ (k + 29) ≤ q)
    (hfraction : ∀ n : ℤ, q ≠ n) : toPlaces q = q := by
  obtain ⟨j, rfl⟩ := Int.eq_ofNat_of_zero_le hk
  have hwhole := roundHalfAway_nearest_of_lastPlace (hk.trans_eq hplace.symm)
  have herror := abs_le.mp (abs_nearest_sub_le y)
  -- All bounds in units of the last place of the number shown.
  obtain ⟨place, hdef⟩ : ∃ place : ℤ, place = j + -23 := ⟨_, rfl⟩
  have hunit : (0 : ℚ) < 2 ^ place := by positivity
  have hgap : (j : ℤ) = place + 23 := by omega
  have hbound : (j : ℤ) + 53 = place + 76 := by omega
  have hleast : (j : ℤ) + 29 = place + 52 := by omega
  rw [hplace, hgap, zpow_add₀ (by norm_num)] at herror
  rw [hbound, zpow_add₀ (by norm_num)] at hbelow
  norm_num only at herror hbelow
  have hqpos : 0 < q := lt_of_lt_of_le (by positivity) hlong
  have hshort : q < 2 ^ (place + 53) := by
    rw [zpow_add₀ (by norm_num)]
    norm_num only
    linarith only [hbelow, hy, hqpos]
  obtain ⟨c, hc, hlower, hupper⟩ :=
    exists_mantissa (by omega) hself (by rwa [← hleast]) hshort
  have hne : 2 ^ 52 ≠ c := by
    rintro rfl
    apply hfraction (2 ^ (j + 29))
    have hpower : (2 : ℚ) ^ (place + 52) = 2 ^ (j + 29) := by
      rw [← hleast]
      exact_mod_cast zpow_natCast (2 : ℚ) (j + 29)
    rw [hc, Int.cast_pow, Int.cast_pow, Int.cast_ofNat, ← hpower, zpow_add₀ (by norm_num), mul_comm]
    norm_num
  have hclose : |nearest y / 10 ^ 7 - c * 2 ^ place| < 2 ^ place / 2 := by
    rw [← hc, abs_lt]
    constructor <;> linarith only [herror.1, herror.2, hy, hunit]
  rw [toPlaces, ← hy, hwhole, nearest_eq_of_near (by omega) (lt_of_le_of_ne hlower hne) hupper
    hclose, ← hc]

end Units

/-- Floats are a unit apart or more. -/
theorem toPlaces_of_two_pow_le (hN : 0 < N) (hq : q = nearest (N / 10 ^ 7)) (hy : y = q * 10 ^ 7)
    (hfloat : nearest N = N) (hself : nearest q = q) (hle : 2 ^ 52 ≤ y)
    (hfraction : ∀ n : ℤ, q ≠ n) : toPlaces q = q := by
  have hpos : 0 < y := by linarith
  have hnonneg : 0 ≤ lastPlace y := by
    apply le_lastPlace_of_le_abs hpos.ne'
    rw [abs_of_pos hpos]
    exact_mod_cast hle
  have hfull := two_zpow_lastPlace_le (by omega : -1074 < lastPlace y) hpos.ne'
  have hbelow := abs_lt_two_zpow_lastPlace y
  rw [abs_of_pos hpos] at hfull hbelow
  rcases lt_or_ge q (2 ^ (lastPlace y + 29)) with hshort | hlong
  · exact toPlaces_of_lt_two_zpow hN hq hy hfloat hnonneg rfl hfull hshort
  · exact toPlaces_of_two_zpow_le hy hself hnonneg rfl hbelow hlong hfraction

/-! ### The number shown, once more -/

/-- The product with the units is in the range where floats are half a unit apart, and more than a
quarter but less than a half of a unit above a whole number of units. -/
def DriftsUp (q : ℚ) : Prop :=
  2 ^ 51 ≤ |q| * 10 ^ 7 ∧ |q| * 10 ^ 7 < 2 ^ 52 ∧ 1 / 4 < Int.fract (|q| * 10 ^ 7) ∧
    Int.fract (|q| * 10 ^ 7) < 1 / 2

theorem driftsUp_neg : DriftsUp (-q) ↔ DriftsUp q := by
  rw [DriftsUp, abs_neg, DriftsUp]

theorem fract_of_abs_sub_lt (h : |y - N| < 3 / 10) :
    1 / 4 < Int.fract y ∧ Int.fract y < 1 / 2 ↔ 1 / 4 < y - N := by
  have hnear := abs_lt.mp h
  rcases le_or_gt (N : ℚ) y with hle | hgt
  · have hfloor : ⌊y⌋ = N := Int.floor_eq_iff.mpr ⟨hle, by linarith⟩
    rw [Int.fract, hfloor]
    exact ⟨fun h ↦ h.1, fun h ↦ ⟨h, by linarith⟩⟩
  · have hfloor : ⌊y⌋ = N - 1 := by
      rw [Int.floor_eq_iff]
      push_cast
      constructor <;> linarith
    rw [Int.fract, hfloor]
    push_cast
    constructor
    · rintro ⟨-, hlt⟩
      linarith
    · intro hquarter
      linarith

/-- A unit more is another number: floats of this size are less than a unit apart. -/
theorem nearest_next_units_ne (hN : 0 < N) (hy : y = q * 10 ^ 7) (hlt : y < 2 ^ 52)
    (hclose : |y - N| < 3 / 10) :
    nearest ((N + 1 : ℤ) / 10 ^ 7) ≠ q := by
  have hnear := abs_lt.mp hclose
  have hpos : (0 : ℚ) < (N + 1 : ℤ) / 10 ^ 7 := by positivity
  have hplace : (2 : ℚ) ^ lastPlace ((N + 1 : ℤ) / 10 ^ 7) ≤ 2 ^ (-24 : ℤ) := by
    apply zpow_le_zpow_right₀ (by norm_num)
    apply lastPlace_le_of_abs_lt hpos.ne' _ (by norm_num)
    rw [abs_of_pos hpos, div_lt_iff₀ (by positivity)]
    push_cast
    norm_num
    linarith
  have herror := abs_le.mp (abs_nearest_sub_le ((N + 1 : ℤ) / 10 ^ 7))
  intro heq
  rw [heq] at herror
  push_cast at herror hplace
  norm_num at hplace
  linarith [herror.1]

theorem toPlaces_eq_self_iff_of_pos (hN : 0 < N) (hfloat : nearest N = N)
    (hq : q = nearest (N / 10 ^ 7)) (hfraction : ∀ n : ℤ, q ≠ n) :
    toPlaces q = q ↔ ¬ DriftsUp q := by
  obtain ⟨y, hy⟩ : ∃ y, y = q * 10 ^ 7 := ⟨_, rfl⟩
  have hpos : 0 < q := by
    rw [hq]
    exact nearest_units_pos hN
  have hself : nearest q = q := by
    rw [hq, nearest_nearest]
  rw [DriftsUp, abs_of_pos hpos, ← hy]
  rcases lt_or_ge y (2 ^ 51) with hbelow | habove
  · rw [toPlaces, ← hy, roundHalfAway_nearest_of_lt hN hq hy hbelow, ← hq]
    simp only [true_iff]
    rintro ⟨hge, -⟩
    linarith
  · rcases lt_or_ge y (2 ^ 52) with hlt | hge
    · have hclose : |y - N| < 3 / 10 := by
        apply (abs_sub_units_le (k := -24) hN hq hy (by norm_num) _).trans_lt
        · norm_num
        · norm_num
          linarith
      have hdrift : (2 ^ 51 ≤ y ∧ y < 2 ^ 52 ∧ 1 / 4 < Int.fract y ∧ Int.fract y < 1 / 2) ↔
          1 / 4 < y - N := by
        rw [← fract_of_abs_sub_lt hclose]
        exact ⟨fun h ↦ h.2.2, fun h ↦ ⟨habove, hlt, h⟩⟩
      rw [hdrift, toPlaces, ← hy, roundHalfAway_nearest_eq hN hq hy habove hlt]
      split
      · next hquarter =>
        exact iff_of_false (nearest_next_units_ne hN hy hlt hclose) (not_not.mpr hquarter)
      · next hquarter => exact iff_of_true hq.symm hquarter
    · apply iff_of_true
      · exact toPlaces_of_two_pow_le hN hq hy hfloat hself hge hfraction
      · rintro ⟨-, hlt, -⟩
        linarith

/-- A number with seven decimal places that is no integer comes out again when it is rounded to
seven places, unless it drifts up. -/
theorem toPlaces_toPlaces_iff (hlimit : |q| ≤ 10 ^ 10) (hfraction : ∀ n : ℤ, toPlaces q ≠ n) :
    toPlaces (toPlaces q) = toPlaces q ↔ ¬ DriftsUp (toPlaces q) := by
  have hscaled : nearest? (q * 10 ^ 7) = some (nearest (q * 10 ^ 7)) :=
    nearest?_of_abs_le (nearest?_of_representable (Readout.representable_ten_pow (by norm_num)))
      (Readout.abs_mul_unitsPerOne_le hlimit)
  have hfloat := nearest_of_representable
    (representable_roundHalfAway (representable_of_nearest? hscaled))
  rcases lt_trichotomy (roundHalfAway (nearest (q * 10 ^ 7))) 0 with hneg | hzero | hpos
  · have hopposite : toPlaces q =
        -nearest ((-roundHalfAway (nearest (q * 10 ^ 7)) : ℤ) / 10 ^ 7) := by
      rw [toPlaces, Int.cast_neg, neg_div, nearest_neg, neg_neg]
    have hfloat' : nearest ((-roundHalfAway (nearest (q * 10 ^ 7)) : ℤ) : ℚ) =
        (-roundHalfAway (nearest (q * 10 ^ 7)) : ℤ) := by
      rw [Int.cast_neg, nearest_neg, hfloat]
    have hiff := toPlaces_eq_self_iff_of_pos (by omega) hfloat' rfl fun n heq ↦ by
      apply hfraction (-n)
      rw [hopposite, heq, Int.cast_neg]
    rw [hopposite, toPlaces_neg, driftsUp_neg, neg_inj]
    exact hiff
  · exact absurd (by rw [toPlaces, hzero]; simp) (hfraction 0)
  · exact toPlaces_eq_self_iff_of_pos hpos hfloat rfl hfraction

end PocketCalculator
