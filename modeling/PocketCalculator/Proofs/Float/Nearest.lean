import Mathlib

/-!
# The nearest float, as a rational number

A float keeps 53 binary digits, the last of them at the place `lastPlace`; below the normal range
the last place stays where it is. `nearest` rounds a rational number at its last place. Rounding
respects the order (`nearest_mono`), moves a number by at most half a unit of its last place
(`abs_nearest_sub_le`), and leaves alone what ends at the last place (`nearest_eq_self`).

Nothing here bounds the exponent from above. A number whose rounding reaches `2 ^ 1024` has no
nearest finite float (`nearest?`).
-/

namespace PocketCalculator

/-! ### Rounding to an integer -/

/-- The nearest integer. A half goes to the even neighbour. -/
def roundHalfEven (q : ℚ) : ℤ :=
  if Int.fract q < 1 / 2 ∨ Int.fract q = 1 / 2 ∧ Even ⌊q⌋ then ⌊q⌋ else ⌊q⌋ + 1

variable {p q : ℚ} {n : ℤ} {e : ℤ}

theorem roundHalfEven_eq_of_fract_lt (h : Int.fract q < 1 / 2) : roundHalfEven q = ⌊q⌋ :=
  if_pos (.inl h)

theorem roundHalfEven_eq_of_lt_fract (h : 1 / 2 < Int.fract q) : roundHalfEven q = ⌊q⌋ + 1 := by
  apply if_neg
  rintro (hlt | ⟨heq, -⟩) <;> linarith

theorem roundHalfEven_eq_of_fract_eq (h : Int.fract q = 1 / 2) :
    roundHalfEven q = ⌊q⌋ + ⌊q⌋ % 2 := by
  simp only [roundHalfEven, h, lt_self_iff_false, false_or, true_and, Int.even_iff]
  split <;> omega

@[simp] theorem roundHalfEven_intCast (n : ℤ) : roundHalfEven n = n := by
  rw [roundHalfEven_eq_of_fract_lt, Int.floor_intCast]
  rw [Int.fract_intCast]
  norm_num

theorem floor_le_roundHalfEven (q : ℚ) : ⌊q⌋ ≤ roundHalfEven q := by
  unfold roundHalfEven
  split <;> omega

theorem roundHalfEven_le_floor_add_one (q : ℚ) : roundHalfEven q ≤ ⌊q⌋ + 1 := by
  unfold roundHalfEven
  split <;> omega

theorem abs_roundHalfEven_sub_le (q : ℚ) : |roundHalfEven q - q| ≤ 1 / 2 := by
  have hq := Int.floor_add_fract q
  have hnonneg := Int.fract_nonneg q
  have hlt := Int.fract_lt_one q
  unfold roundHalfEven
  split
  · next h =>
    have hle : Int.fract q ≤ 1 / 2 := by
      rcases h with h | h
      · exact h.le
      · exact h.1.le
    rw [abs_le]
    constructor <;> linarith
  · next h =>
    have hle : 1 / 2 ≤ Int.fract q := by
      by_contra hlt
      exact h (.inl (not_le.mp hlt))
    push_cast
    rw [abs_le]
    constructor <;> linarith

theorem roundHalfEven_mono : Monotone roundHalfEven := by
  intro p q hpq
  rcases (Int.floor_le_floor hpq).lt_or_eq with hlt | heq
  · have := roundHalfEven_le_floor_add_one p
    have := floor_le_roundHalfEven q
    omega
  · -- Between the same two integers, what goes down for `q` goes down for `p`.
    have hfract : Int.fract p ≤ Int.fract q := by
      rw [Int.fract, Int.fract, heq]
      linarith
    unfold roundHalfEven
    rw [heq]
    split
    · split <;> omega
    · next hp =>
      rw [if_neg]
      rintro (hq | ⟨hq, heven⟩)
      · exact hp (.inl (hfract.trans_lt hq))
      · rcases hfract.lt_or_eq with hlt | hsame
        · exact hp (.inl (by rwa [hq] at hlt))
        · exact hp (.inr ⟨hsame.trans hq, heven⟩)

theorem roundHalfEven_neg (q : ℚ) : roundHalfEven (-q) = -roundHalfEven q := by
  by_cases hwhole : Int.fract q = 0
  · obtain ⟨n, rfl⟩ : ∃ n : ℤ, (n : ℚ) = q := ⟨⌊q⌋, by linarith [Int.floor_add_fract q]⟩
    rw [← Int.cast_neg, roundHalfEven_intCast, roundHalfEven_intCast]
  · have hfract := Int.fract_neg hwhole
    have hfloor : ⌊-q⌋ = -⌊q⌋ - 1 := by
      have hq := Int.floor_add_fract q
      have hneg := Int.floor_add_fract (-q)
      have hcast : ((⌊-q⌋ : ℤ) : ℚ) = ((-⌊q⌋ - 1 : ℤ) : ℚ) := by
        push_cast
        linarith
      exact_mod_cast hcast
    have hparity : Even (-⌊q⌋ - 1) ↔ ¬ Even ⌊q⌋ := by
      rw [Int.even_sub_one, even_neg]
    rcases lt_trichotomy (Int.fract q) (1 / 2) with hlt | heq | hgt
    · rw [roundHalfEven_eq_of_fract_lt hlt, roundHalfEven_eq_of_lt_fract (by linarith), hfloor]
      omega
    · have heq' : Int.fract (-q) = 1 / 2 := by linarith
      have hnot : ¬ Int.fract q < 1 / 2 := by linarith
      have hnot' : ¬ Int.fract (-q) < 1 / 2 := by linarith
      simp only [roundHalfEven, hfloor, hparity, heq, heq', lt_self_iff_false, false_or, true_and]
      split_ifs <;> omega
    · rw [roundHalfEven_eq_of_lt_fract hgt, roundHalfEven_eq_of_fract_lt (by linarith), hfloor]
      omega

theorem roundHalfEven_eq_of_abs_sub_lt (h : |q - n| < 1 / 2) : roundHalfEven q = n := by
  have hround := abs_roundHalfEven_sub_le q
  rw [abs_lt] at h
  rw [abs_le] at hround
  have hlower : ((n - 1 : ℤ) : ℚ) < (roundHalfEven q : ℤ) := by
    push_cast
    linarith
  have hupper : ((roundHalfEven q : ℤ) : ℚ) < ((n + 1 : ℤ) : ℚ) := by
    push_cast
    linarith
  have hlower' := Int.cast_lt.mp hlower
  have hupper' := Int.cast_lt.mp hupper
  omega

theorem roundHalfEven_even_add_half (n : ℤ) : roundHalfEven (2 * n + 1 / 2) = 2 * n := by
  have hsum : (2 * n + 1 / 2 : ℚ) = ((2 * n : ℤ) : ℚ) + 1 / 2 := by
    push_cast
    rfl
  have hhalf : Int.fract (1 / 2 : ℚ) = 1 / 2 := Int.fract_eq_self.mpr (by norm_num)
  have hfloor : ⌊(1 / 2 : ℚ)⌋ = 0 := Int.floor_eq_zero_iff.mpr (by norm_num)
  rw [hsum, roundHalfEven_eq_of_fract_eq, Int.floor_intCast_add, hfloor]
  · omega
  · rw [Int.fract_intCast_add, hhalf]

/-! ### The last place -/

/-- The place of the last binary digit of the floats around a number. -/
def lastPlace (q : ℚ) : ℤ :=
  max (Int.log 2 |q| - 52) (-1074)

theorem neg_1074_le_lastPlace (q : ℚ) : -1074 ≤ lastPlace q :=
  le_max_right _ _

@[simp] theorem lastPlace_neg (q : ℚ) : lastPlace (-q) = lastPlace q := by
  rw [lastPlace, abs_neg, lastPlace]

theorem two_zpow_le_iff_le_log (hq : 0 < q) : 2 ^ e ≤ q ↔ e ≤ Int.log 2 q := by
  exact_mod_cast Int.zpow_le_iff_le_log (b := 2) (by norm_num) hq

theorem lt_two_zpow_iff_log_lt (hq : 0 < q) : q < 2 ^ e ↔ Int.log 2 q < e := by
  rw [← not_le, two_zpow_le_iff_le_log hq, not_le]

theorem lastPlace_le_of_abs_lt (hq : q ≠ 0) (h : |q| < 2 ^ (e + 53)) (he : -1074 ≤ e) :
    lastPlace q ≤ e := by
  have hlog := (lt_two_zpow_iff_log_lt (abs_pos.mpr hq)).mp h
  exact max_le (by omega) he

theorem le_lastPlace_of_le_abs (hq : q ≠ 0) (h : 2 ^ (e + 52) ≤ |q|) : e ≤ lastPlace q := by
  have hlog := (two_zpow_le_iff_le_log (abs_pos.mpr hq)).mp h
  exact le_max_of_le_left (by omega)

theorem abs_lt_two_zpow_lastPlace (q : ℚ) : |q| < 2 ^ (lastPlace q + 53) := by
  rcases eq_or_ne q 0 with rfl | hq
  · rw [abs_zero]
    positivity
  · apply (lt_two_zpow_iff_log_lt (abs_pos.mpr hq)).mpr
    have : Int.log 2 |q| - 52 ≤ lastPlace q := le_max_left _ _
    omega

/-- Above the least place, numbers have all their 53 digits. -/
theorem two_zpow_lastPlace_le (h : -1074 < lastPlace q) (hq : q ≠ 0) :
    2 ^ (lastPlace q + 52) ≤ |q| := by
  apply (two_zpow_le_iff_le_log (abs_pos.mpr hq)).mpr
  unfold lastPlace at h ⊢
  omega

theorem lastPlace_mono (hp : p ≠ 0) (h : |p| ≤ |q|) : lastPlace p ≤ lastPlace q := by
  have hlog : Int.log 2 |p| ≤ Int.log 2 |q| := Int.log_mono_right (abs_pos.mpr hp) h
  exact max_le_max_right _ (by omega)

theorem lastPlace_eq_of_le_of_lt (hle : 2 ^ (e + 52) ≤ |q|) (hlt : |q| < 2 ^ (e + 53))
    (he : -1074 ≤ e) : lastPlace q = e := by
  have hq : q ≠ 0 := by
    rintro rfl
    rw [abs_zero] at hle
    exact absurd hle (not_le.mpr (by positivity))
  exact le_antisymm (lastPlace_le_of_abs_lt hq hlt he) (le_lastPlace_of_le_abs hq hle)

theorem mul_two_zpow_div (n : ℤ) {e f : ℤ} (h : f ≤ e) :
    ((n * 2 ^ (e - f).toNat : ℤ) : ℚ) = n * 2 ^ e / 2 ^ f := by
  have hsub : ((e - f).toNat : ℤ) = e - f := Int.toNat_of_nonneg (by omega)
  push_cast
  rw [mul_div_assoc, ← zpow_sub₀ (by norm_num), ← zpow_natCast, hsub]

/-! ### Rounding at the last place -/

/-- The value of the nearest float; of two equally near, the one with an even mantissa. -/
def nearest (q : ℚ) : ℚ :=
  roundHalfEven (q / 2 ^ lastPlace q) * 2 ^ lastPlace q

@[simp] theorem nearest_zero : nearest 0 = 0 := by
  have hround : roundHalfEven 0 = 0 := roundHalfEven_intCast 0
  rw [nearest, zero_div, hround, Int.cast_zero, zero_mul]

@[simp] theorem nearest_neg (q : ℚ) : nearest (-q) = -nearest q := by
  rw [nearest, lastPlace_neg, neg_div, roundHalfEven_neg, Int.cast_neg, neg_mul, nearest]

/-- Rounding moves a number by half a unit of its last place at most. -/
theorem abs_nearest_sub_le (q : ℚ) : |nearest q - q| ≤ 2 ^ lastPlace q / 2 := by
  have hpos : (0 : ℚ) < 2 ^ lastPlace q := by positivity
  have hround := abs_roundHalfEven_sub_le (q / 2 ^ lastPlace q)
  have hscaled : nearest q - q =
      (roundHalfEven (q / 2 ^ lastPlace q) - q / 2 ^ lastPlace q) * 2 ^ lastPlace q := by
    rw [nearest]
    field_simp
  rw [hscaled, abs_mul, abs_of_pos hpos]
  calc
    |roundHalfEven (q / 2 ^ lastPlace q) - q / 2 ^ lastPlace q| * 2 ^ lastPlace q
      ≤ 1 / 2 * 2 ^ lastPlace q := mul_le_mul_of_nonneg_right hround hpos.le
    _ = 2 ^ lastPlace q / 2 := by ring

/-- In the normal range, rounding moves a number by one part in `2 ^ 53` at most. -/
theorem abs_nearest_sub_le_div (h : 2 ^ (-1022 : ℤ) ≤ |q|) : |nearest q - q| ≤ |q| / 2 ^ 53 := by
  have hfull : 2 ^ (lastPlace q + 52) ≤ |q| := by
    rcases (neg_1074_le_lastPlace q).eq_or_lt with hleast | hlt
    · rwa [← hleast]
    · apply two_zpow_lastPlace_le hlt
      rw [← abs_pos]
      exact lt_of_lt_of_le (by positivity) h
  rw [zpow_add₀ (by norm_num)] at hfull
  calc
    |nearest q - q| ≤ 2 ^ lastPlace q / 2 := abs_nearest_sub_le q
    _ = 2 ^ lastPlace q * 2 ^ (52 : ℤ) / 2 ^ 53 := by
      norm_num
      ring
    _ ≤ |q| / 2 ^ 53 := div_le_div_of_nonneg_right hfull (by norm_num)

/-- Rounding does not cross a number that ends at the last place or before it. -/
theorem le_nearest (he : lastPlace q ≤ e) (h : n * 2 ^ e ≤ q) : n * 2 ^ e ≤ nearest q := by
  have hpos : (0 : ℚ) < 2 ^ lastPlace q := by positivity
  have hscaled : ((n * 2 ^ (e - lastPlace q).toNat : ℤ) : ℚ) ≤ q / 2 ^ lastPlace q := by
    rw [mul_two_zpow_div n he]
    exact div_le_div_of_nonneg_right h hpos.le
  have hround := roundHalfEven_mono hscaled
  rw [roundHalfEven_intCast] at hround
  have hcast : ((n * 2 ^ (e - lastPlace q).toNat : ℤ) : ℚ) ≤
      roundHalfEven (q / 2 ^ lastPlace q) := by
    exact_mod_cast hround
  rw [mul_two_zpow_div n he, div_le_iff₀ hpos] at hcast
  exact hcast

theorem nearest_le (he : lastPlace q ≤ e) (h : q ≤ n * 2 ^ e) : nearest q ≤ n * 2 ^ e := by
  have hneg := le_nearest (q := -q) (n := -n) (e := e) (by rwa [lastPlace_neg])
    (by push_cast; linarith)
  rw [nearest_neg] at hneg
  push_cast at hneg
  linarith

theorem nearest_eq_self (he : lastPlace q ≤ e) (h : q = n * 2 ^ e) : nearest q = q := by
  apply le_antisymm
  · rw [h] at he ⊢
    exact nearest_le he le_rfl
  · rw [h] at he ⊢
    exact le_nearest he le_rfl

theorem nearest_nonneg (h : 0 ≤ q) : 0 ≤ nearest q := by
  have hzero := le_nearest (q := q) (n := 0) (e := lastPlace q) le_rfl (by simpa using h)
  simpa using hzero

theorem abs_nearest (q : ℚ) : |nearest q| = nearest |q| := by
  rcases le_total 0 q with hq | hq
  · rw [abs_of_nonneg hq, abs_of_nonneg (nearest_nonneg hq)]
  · have hneg := nearest_nonneg (neg_nonneg.mpr hq)
    rw [abs_of_nonpos hq, nearest_neg, abs_of_nonpos]
    rw [nearest_neg] at hneg
    exact neg_nonneg.mp hneg

theorem nearest_le_nearest_of_pos (hp : 0 < p) (h : p ≤ q) : nearest p ≤ nearest q := by
  have hq : 0 < q := hp.trans_le h
  have habs : |p| ≤ |q| := by rwa [abs_of_pos hp, abs_of_pos hq]
  rcases (lastPlace_mono hp.ne' habs).lt_or_eq with hlt | heq
  · -- A power of two lies between the numbers, and neither rounding crosses it.
    have hleast := neg_1074_le_lastPlace p
    have hbelow := abs_lt_two_zpow_lastPlace p
    have habove := two_zpow_lastPlace_le (by omega : -1074 < lastPlace q) hq.ne'
    rw [abs_of_pos hp] at hbelow
    rw [abs_of_pos hq] at habove
    have hpow : (2 : ℚ) ^ (lastPlace p + 53) ≤ 2 ^ (lastPlace q + 52) :=
      zpow_le_zpow_right₀ (by norm_num) (by omega)
    have hup := nearest_le (q := p) (n := 1) (e := lastPlace p + 53) (by omega)
      (by rw [Int.cast_one, one_mul]; exact hbelow.le)
    have hdown := le_nearest (q := q) (n := 1) (e := lastPlace q + 52) (by omega)
      (by rwa [Int.cast_one, one_mul])
    rw [Int.cast_one, one_mul] at hup hdown
    exact hup.trans (hpow.trans hdown)
  · rw [nearest, nearest, heq]
    have hpos : (0 : ℚ) < 2 ^ lastPlace q := by positivity
    apply mul_le_mul_of_nonneg_right _ hpos.le
    have hround := roundHalfEven_mono (div_le_div_of_nonneg_right h hpos.le)
    exact_mod_cast hround

theorem nearest_mono : Monotone nearest := by
  intro p q h
  rcases lt_trichotomy p 0 with hp | rfl | hp
  · rcases lt_or_ge q 0 with hq | hq
    · have hneg := nearest_le_nearest_of_pos (neg_pos.mpr hq) (neg_le_neg h)
      rw [nearest_neg, nearest_neg] at hneg
      linarith
    · have hneg := nearest_nonneg (neg_nonneg.mpr hp.le)
      rw [nearest_neg] at hneg
      linarith [nearest_nonneg hq]
  · rw [nearest_zero]
    exact nearest_nonneg h
  · exact nearest_le_nearest_of_pos hp h

/-- Rounding up may reach the next power of two, and then the last place moves up too. -/
theorem lastPlace_le_lastPlace_nearest (q : ℚ) : lastPlace q ≤ lastPlace (nearest q) := by
  rcases (neg_1074_le_lastPlace q).eq_or_lt with hleast | hlt
  · rw [← hleast]
    exact neg_1074_le_lastPlace _
  · rcases eq_or_ne q 0 with rfl | hq
    · rw [nearest_zero]
    · have hfull := two_zpow_lastPlace_le hlt hq
      have hscaled := le_nearest (q := |q|) (n := 1) (e := lastPlace q + 52)
        (by rw [lastPlace, abs_abs, ← lastPlace]; omega) (by rwa [Int.cast_one, one_mul])
      rw [Int.cast_one, one_mul, ← abs_nearest] at hscaled
      apply le_lastPlace_of_le_abs _ hscaled
      rw [← abs_pos]
      exact lt_of_lt_of_le (by positivity) hscaled

theorem nearest_eq_of_abs_sub_lt (h : |q - n * 2 ^ lastPlace q| < 2 ^ lastPlace q / 2) :
    nearest q = n * 2 ^ lastPlace q := by
  have hpos : (0 : ℚ) < 2 ^ lastPlace q := by positivity
  rw [nearest, roundHalfEven_eq_of_abs_sub_lt (n := n)]
  have hscaled : q / 2 ^ lastPlace q - n = (q - n * 2 ^ lastPlace q) / 2 ^ lastPlace q := by
    field_simp
  rw [hscaled, abs_div, abs_of_pos hpos, div_lt_iff₀ hpos]
  linarith

/-- A float as a mantissa and its last place. -/
theorem exists_mantissa (he : -1074 ≤ e) (hself : nearest q = q) (hle : 2 ^ (e + 52) ≤ q)
    (hlt : q < 2 ^ (e + 53)) : ∃ c : ℤ, q = c * 2 ^ e ∧ 2 ^ 52 ≤ c ∧ c < 2 ^ 53 := by
  have hpos : 0 < q := lt_of_lt_of_le (by positivity) hle
  have hpow : (0 : ℚ) < 2 ^ e := by positivity
  have habs : |q| = q := abs_of_pos hpos
  have hplace : lastPlace q = e :=
    lastPlace_eq_of_le_of_lt (by rwa [habs]) (by rwa [habs]) he
  obtain ⟨c, hc⟩ : ∃ c, c = roundHalfEven (q / 2 ^ e) := ⟨_, rfl⟩
  have hvalue : q = c * 2 ^ e := by
    rw [hc, ← hplace, ← nearest, hself]
  refine ⟨c, hvalue, ?_, ?_⟩
  · rw [add_comm, zpow_add₀ (by norm_num), hvalue] at hle
    exact_mod_cast le_of_mul_le_mul_right hle hpow
  · rw [add_comm, zpow_add₀ (by norm_num), hvalue] at hlt
    exact_mod_cast lt_of_mul_lt_mul_right hlt hpow.le

/-- A number nearer than half a place to a float that is no power of two. Below a power of two the
places are narrower. -/
theorem nearest_eq_of_near (he : -1074 ≤ e) (hlt : 2 ^ 52 < n) (hgt : n < 2 ^ 53)
    (h : |q - n * 2 ^ e| < 2 ^ e / 2) : nearest q = n * 2 ^ e := by
  have hpow : (0 : ℚ) < 2 ^ e := by positivity
  have hlower : (2 ^ 52 + 1 : ℚ) * 2 ^ e ≤ n * 2 ^ e := by
    apply mul_le_mul_of_nonneg_right _ hpow.le
    exact_mod_cast hlt
  have hupper : (n : ℚ) * 2 ^ e ≤ (2 ^ 53 - 1) * 2 ^ e := by
    apply mul_le_mul_of_nonneg_right _ hpow.le
    exact_mod_cast Int.le_sub_one_of_lt hgt
  have hnear := abs_lt.mp h
  have hpos : 0 < q := by linarith
  have hplace : lastPlace q = e := by
    apply lastPlace_eq_of_le_of_lt _ _ he <;>
      rw [abs_of_pos hpos, add_comm, zpow_add₀ (by norm_num)] <;> norm_num only <;> linarith
  rw [← hplace] at h ⊢
  exact nearest_eq_of_abs_sub_lt h

theorem abs_roundHalfEven_le (q : ℚ) : |roundHalfEven (q / 2 ^ lastPlace q)| ≤ 2 ^ 53 := by
  have hpos : (0 : ℚ) < 2 ^ lastPlace q := by positivity
  have hlt := abs_lt_two_zpow_lastPlace q
  rw [add_comm, zpow_add₀ (by norm_num), ← div_lt_iff₀ hpos, ← abs_of_pos hpos, ← abs_div,
    abs_lt] at hlt
  have hlower : roundHalfEven ((-2 ^ 53 : ℤ) : ℚ) ≤ roundHalfEven (q / 2 ^ lastPlace q) := by
    apply roundHalfEven_mono
    push_cast
    exact_mod_cast hlt.1.le
  have hupper : roundHalfEven (q / 2 ^ lastPlace q) ≤ roundHalfEven ((2 ^ 53 : ℤ) : ℚ) := by
    apply roundHalfEven_mono
    push_cast
    exact_mod_cast hlt.2.le
  rw [roundHalfEven_intCast] at hlower hupper
  exact abs_le.mpr ⟨hlower, hupper⟩

/-- A mantissa of 53 bits fits, wherever it ends, and so does the next power of two. -/
theorem nearest_eq_self_of_abs_le (hn : |n| ≤ 2 ^ 53) (he : -1074 ≤ e) :
    nearest (n * 2 ^ e) = n * 2 ^ e := by
  have hpow : (0 : ℚ) < 2 ^ e := by positivity
  rcases eq_or_ne n 0 with rfl | hne
  · rw [Int.cast_zero, zero_mul, nearest_zero]
  · have hvalue : (n : ℚ) * 2 ^ e ≠ 0 := mul_ne_zero (by exact_mod_cast hne) hpow.ne'
    have habs : |(n : ℚ) * 2 ^ e| = (|n| : ℤ) * 2 ^ e := by
      rw [abs_mul, abs_of_pos hpow, Int.cast_abs]
    rcases hn.lt_or_eq with hlt | heq
    · apply nearest_eq_self _ rfl
      apply lastPlace_le_of_abs_lt hvalue _ he
      rw [habs, add_comm, zpow_add₀ (by norm_num)]
      apply mul_lt_mul_of_pos_right _ hpow
      exact_mod_cast hlt
    · have hplace : lastPlace (n * 2 ^ e) ≤ e + 1 := by
        apply lastPlace_le_of_abs_lt hvalue _ (by omega)
        rw [habs, heq, add_assoc, zpow_add₀ (by norm_num), mul_comm]
        apply mul_lt_mul_of_pos_left _ hpow
        norm_num
      obtain ⟨c, hc⟩ : ∃ c, n = c * 2 := by
        rcases abs_choice n with h | h
        · exact ⟨2 ^ 52, by omega⟩
        · exact ⟨-2 ^ 52, by omega⟩
      apply nearest_eq_self (n := c) hplace
      rw [hc, zpow_add₀ (by norm_num)]
      push_cast
      ring

/-- Neither the smallest float nor anything above it is rounded to zero. -/
theorem zero_lt_nearest (h : 2 ^ (-1074 : ℤ) ≤ q) : 0 < nearest q := by
  have hself := nearest_eq_self_of_abs_le (n := 1) (e := -1074) (by norm_num) le_rfl
  rw [Int.cast_one, one_mul] at hself
  calc
    (0 : ℚ) < 2 ^ (-1074 : ℤ) := by positivity
    _ = nearest (2 ^ (-1074 : ℤ)) := hself.symm
    _ ≤ nearest q := nearest_mono h

theorem nearest_nearest (q : ℚ) : nearest (nearest q) = nearest q :=
  nearest_eq_self_of_abs_le (abs_roundHalfEven_le q) (neg_1074_le_lastPlace q)

/-! ### The range of floats -/

/-- The value of the nearest float, if its magnitude is in range. -/
def nearest? (q : ℚ) : Option ℚ :=
  if |nearest q| < 2 ^ 1024 then some (nearest q) else none

theorem nearest_eq_of_nearest? {r : ℚ} (h : nearest? q = some r) : nearest q = r := by
  rw [nearest?] at h
  split at h
  · exact Option.some.inj h
  · cases h

theorem nearest?_neg (q : ℚ) : nearest? (-q) = (nearest? q).map fun r ↦ -r := by
  rw [nearest?, nearest?, nearest_neg, abs_neg]
  split <;> rfl

theorem nearest?_of_abs_le {r : ℚ} (hp : nearest? p = some r) (h : |q| ≤ p) :
    nearest? q = some (nearest q) := by
  have hrange : |nearest p| < 2 ^ 1024 := by
    by_contra hlarge
    rw [nearest?, if_neg hlarge] at hp
    cases hp
  rw [nearest?, abs_nearest, if_pos]
  exact (nearest_mono h).trans_lt ((le_abs_self _).trans_lt hrange)

theorem nearest?_of_two_pow_le (h : 2 ^ 1024 ≤ |q|) : nearest? q = none := by
  have hlarge : nearest (2 ^ 1024 : ℚ) = 2 ^ 1024 := by
    apply nearest_eq_self (n := 1) (e := 1024)
    · apply lastPlace_le_of_abs_lt (by positivity) _ (by norm_num)
      rw [abs_of_pos (by positivity), ← zpow_natCast]
      exact zpow_lt_zpow_right₀ (by norm_num) (by norm_num)
    · norm_num
  have hmono := nearest_mono h
  rw [hlarge] at hmono
  rw [nearest?, abs_nearest, if_neg (not_lt.mpr hmono)]

theorem nearest_of_abs_lt (h : |q| < 2 ^ (-1075 : ℤ)) : nearest q = 0 := by
  have hplace : (2 : ℚ) ^ (-1074 : ℤ) ≤ 2 ^ lastPlace q :=
    zpow_le_zpow_right₀ (by norm_num) (neg_1074_le_lastPlace q)
  have hround : roundHalfEven (q / 2 ^ lastPlace q) = 0 := by
    apply roundHalfEven_eq_of_abs_sub_lt
    rw [Int.cast_zero, sub_zero, abs_div, abs_of_pos (by positivity : (0 : ℚ) < 2 ^ lastPlace q),
      div_lt_iff₀ (by positivity)]
    calc
      |q| < 2 ^ (-1075 : ℤ) := h
      _ = 1 / 2 * 2 ^ (-1074 : ℤ) := by
        rw [show (-1075 : ℤ) = -1 + -1074 from rfl, zpow_add₀ (by norm_num)]
        norm_num
      _ ≤ 1 / 2 * 2 ^ lastPlace q := by linarith
  rw [nearest, hround, Int.cast_zero, zero_mul]

end PocketCalculator
