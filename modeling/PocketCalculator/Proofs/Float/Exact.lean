import PocketCalculator.Proofs.Float.Rounding

/-!
# Exact arithmetic on floats

Each operation on floats computes its result exactly and rounds it. Where the exact result is itself
the value of a float, the operation yields it: sums, differences, products and quotients are then
those of rational numbers (`exactValue?_add` and the theorems after it).
-/

namespace PocketCalculator

open Float.Model Float.Model.UnpackedFloat

def signed (s : Sign) (q : ℚ) : ℚ :=
  match s with
  | .negative => -q
  | .positive => q

def unpackedValue? : UnpackedFloat → Option ℚ
  | .zero _ => some 0
  | .finite s m e _ => some (signed s (m * 2 ^ e))
  | .infinity _ | .notANumber => none

/-- The number that a float is, if it is one. Both zeros are the same number. -/
def exactValue? (x : Float) : Option ℚ :=
  unpackedValue? x.toModel.unpack

/-- The numbers that some float is. -/
def Representable (q : ℚ) : Prop :=
  ∃ (m : ℕ) (e : ℤ), m < 2 ^ 53 ∧ -1074 ≤ e ∧ e ≤ 971 ∧ |q| = m * 2 ^ e

/-! ### Signs -/

theorem abs_signed (s : Sign) (q : ℚ) : |signed s q| = |q| := by
  cases s
  · exact abs_neg q
  · rfl

theorem signed_mul_signed (s t : Sign) (p q : ℚ) :
    signed s p * signed t q = signed (s * t) (p * q) := by
  cases s <;> cases t
  · exact neg_mul_neg p q
  · exact neg_mul p q
  · exact mul_neg p q
  · rfl

theorem signed_div_signed (s t : Sign) (p q : ℚ) :
    signed s p / signed t q = signed (s / t) (p / q) := by
  cases s <;> cases t
  · exact neg_div_neg_eq p q
  · exact neg_div q p
  · exact div_neg p
  · rfl

theorem signed_neg (s : Sign) (q : ℚ) : signed (-s) q = -signed s q := by
  cases s
  · exact (neg_neg q).symm
  · rfl

theorem neg_apply (s : Sign) (n : ℤ) : (-s).apply n = -s.apply n := by
  cases s
  · exact (neg_neg n).symm
  · rfl

theorem cast_apply (s : Sign) (n : ℤ) : ((s.apply n : ℤ) : ℚ) = signed s n := by
  cases s
  · exact Int.cast_neg n
  · rfl

/-! ### Data and their values -/

/-- The value of a datum as it is stored. -/
inductive Denotes : UnpackedFloat → ℚ → Prop
  | zero (s : Sign) : Denotes (.zero s) 0
  | finite (s : Sign) {m : ℕ} {e : ℤ} (hm : 0 < m) (h : IsCanonical m e) :
      Denotes (.finite s m e hm) (signed s (m * 2 ^ e))

/-- The value of a datum after it was stored. -/
def storedValue? (u : UnpackedFloat) : Option ℚ :=
  unpackedValue? (unpack .binary64 (pack .binary64 u))

variable {x y : Float} {u v : UnpackedFloat} {p q : ℚ} {s : Sign} {m : ℕ} {e : ℤ}

theorem exactValue?_eq_some_iff : exactValue? x = some q ↔ Denotes x.toModel.unpack q := by
  constructor
  · intro h
    rw [exactValue?] at h
    cases hx : x.toModel.unpack with
    | zero s =>
      rw [hx] at h
      obtain rfl : 0 = q := Option.some.inj h
      exact .zero s
    | finite s m e hm =>
      rw [hx] at h
      obtain rfl : signed s (m * 2 ^ e) = q := Option.some.inj h
      exact .finite s hm (isCanonical_of_unpack hx)
    | infinity s | notANumber =>
      rw [hx] at h
      cases h
  · intro h
    rw [exactValue?]
    generalize x.toModel.unpack = u at h ⊢
    cases h <;> rfl

theorem isFinite_iff_exactValue? : x.isFinite ↔ ∃ q, exactValue? x = some q := by
  show x.toModel.unpack.isFinite = true ↔ ∃ q, unpackedValue? x.toModel.unpack = some q
  cases x.toModel.unpack with
  | zero s | finite s m e hm => exact ⟨fun _ ↦ ⟨_, rfl⟩, fun _ ↦ rfl⟩
  | infinity s | notANumber => exact ⟨nofun, nofun⟩

theorem isFinite_of_exactValue? (h : exactValue? x = some q) : x.isFinite :=
  isFinite_iff_exactValue?.mpr ⟨q, h⟩

namespace Denotes

theorem storedValue?_eq (h : Denotes u q) : storedValue? u = some q := by
  cases h with
  | zero s =>
    rw [storedValue?, UnpackedFloat.pack, unpack_packedZero]
    rfl
  | finite s hm h =>
    rw [storedValue?, unpack_pack_finite h]
    rfl

theorem neg (h : Denotes u q) : Denotes u.neg (-q) := by
  cases h with
  | zero s =>
    rw [neg_zero]
    exact .zero _
  | finite s hm h =>
    rw [← signed_neg]
    exact .finite _ hm h

theorem abs (h : Denotes u q) : Denotes u.abs |q| := by
  cases h with
  | zero s =>
    rw [abs_zero]
    exact .zero _
  | @finite s m e hm h =>
    have hpos : (0 : ℚ) < m * 2 ^ e := by positivity
    rw [abs_signed, abs_of_pos hpos]
    exact .finite .positive hm h

end Denotes

/-! ### Rounding to a datum -/

theorem nearest_signed (s : Sign) (q : ℚ) : nearest (signed s q) = signed s (nearest q) := by
  cases s
  · exact nearest_neg q
  · rfl

theorem nearest_of_representable (h : Representable q) : nearest q = q := by
  obtain ⟨m, e, hlt, hleast, -, hvalue⟩ := h
  have hself : nearest ((m : ℤ) * 2 ^ e) = (m : ℤ) * 2 ^ e :=
    nearest_eq_self_of_abs_le (by rw [abs_of_nonneg] <;> omega) hleast
  rw [Int.cast_natCast, ← hvalue] at hself
  rcases abs_choice q with habs | habs
  · rwa [habs] at hself
  · rw [habs, nearest_neg] at hself
    exact neg_injective hself

theorem Representable.abs_lt (h : Representable q) : |q| < 2 ^ 1024 := by
  obtain ⟨m, e, hlt, hleast, hmost, hvalue⟩ := h
  calc
    |q| = m * 2 ^ e := hvalue
    _ < 2 ^ 53 * 2 ^ e := by
      apply mul_lt_mul_of_pos_right _ (by positivity)
      exact_mod_cast hlt
    _ = 2 ^ (53 + e) := by
      rw [zpow_add₀ (by norm_num)]
      norm_num
    _ ≤ 2 ^ (1024 : ℤ) := zpow_le_zpow_right₀ (by norm_num) (by omega)
    _ = 2 ^ 1024 := by norm_num

theorem Representable.two_zpow_le (h : Representable q) (hpos : 0 < q) : 2 ^ (-1074 : ℤ) ≤ q := by
  obtain ⟨m, e, -, hleast, -, hvalue⟩ := h
  rw [abs_of_pos hpos] at hvalue
  have hm : 1 ≤ m := by
    by_contra hzero
    obtain rfl : m = 0 := by omega
    rw [hvalue, Nat.cast_zero, zero_mul] at hpos
    exact lt_irrefl _ hpos
  have hpow : (2 : ℚ) ^ (-1074 : ℤ) ≤ 2 ^ e := zpow_le_zpow_right₀ (by norm_num) hleast
  calc
    (2 : ℚ) ^ (-1074 : ℤ) ≤ 2 ^ e := hpow
    _ = 1 * 2 ^ e := (one_mul _).symm
    _ ≤ m * 2 ^ e := by
      apply mul_le_mul_of_nonneg_right _ (by positivity)
      exact_mod_cast hm
    _ = q := hvalue.symm

theorem nearest?_of_representable (h : Representable q) : nearest? q = some q := by
  rw [nearest?, nearest_of_representable h, if_pos h.abs_lt]

theorem representable_zero : Representable 0 :=
  ⟨0, 0, by norm_num, by norm_num, by norm_num, by simp⟩

theorem representable_of_nearest? (h : nearest? q = some p) : Representable p := by
  rw [nearest?] at h
  split at h
  · next hrange =>
    cases h
    rcases eq_or_ne (nearest q) 0 with hzero | hne
    · rw [hzero]
      exact representable_zero
    · obtain ⟨c, hc⟩ : ∃ c, c = roundHalfEven (nearest q / 2 ^ lastPlace (nearest q)) := ⟨_, rfl⟩
      have hvalue : nearest q = c * 2 ^ lastPlace (nearest q) := by
        rw [hc, ← nearest, nearest_nearest]
      have hpow : (0 : ℚ) < 2 ^ lastPlace (nearest q) := by positivity
      have habs : |nearest q| = c.natAbs * 2 ^ lastPlace (nearest q) := by
        rw [Nat.cast_natAbs, Int.cast_abs, ← abs_of_pos hpow, ← abs_mul, ← hvalue]
      refine ⟨c.natAbs, lastPlace (nearest q), ?_, neg_1074_le_lastPlace _, ?_, habs⟩
      · have hlt := abs_lt_two_zpow_lastPlace (nearest q)
        rw [habs, add_comm, zpow_add₀ (by norm_num)] at hlt
        exact_mod_cast lt_of_mul_lt_mul_right hlt hpow.le
      · have hpower : (2 : ℚ) ^ ((971 : ℤ) + 53) = 2 ^ 1024 := zpow_natCast 2 1024
        apply lastPlace_le_of_abs_lt hne _ (by norm_num)
        rwa [hpower]
  · cases h

theorem Denotes.representable (h : Denotes u q) : Representable q := by
  cases h with
  | zero s => exact representable_zero
  | @finite s m e hm h =>
    have hpos : (0 : ℚ) < m * 2 ^ e := by positivity
    exact ⟨m, e, h.mantissa_lt, h.le_exponent, h.exponent_le, by rw [abs_signed, abs_of_pos hpos]⟩

theorem Denotes.nearest?_eq (h : Denotes u q) : nearest? q = some q :=
  nearest?_of_representable h.representable

theorem representable_of_exactValue? (h : exactValue? x = some q) : Representable q :=
  (exactValue?_eq_some_iff.mp h).representable

/-- Data whose exponent is too large for storing become infinite. -/
theorem storedValue?_finite {hm : 0 < m} (hlt : m < 2 ^ 53) (hleast : -1074 ≤ e)
    (hnormal : 2 ^ 52 ≤ m ∨ e = -1074) :
    storedValue? (.finite s m e hm) =
      if (m : ℚ) * 2 ^ e < 2 ^ 1024 then some (signed s (m * 2 ^ e)) else none := by
  by_cases hmost : e ≤ 971
  · have hcanonical : IsCanonical m e := ⟨hlt, hleast, hmost, hnormal⟩
    have habs : |(m : ℚ) * 2 ^ e| = m * 2 ^ e := abs_of_nonneg (by positivity)
    have hrange := Representable.abs_lt ⟨m, e, hlt, hleast, hmost, habs⟩
    rw [habs] at hrange
    rw [(Denotes.finite s hm hcanonical).storedValue?_eq, if_pos hrange]
  · have hrange : ¬ (m : ℚ) * 2 ^ e < 2 ^ 1024 := by
      rw [not_lt]
      calc
        (2 : ℚ) ^ 1024 = 2 ^ (52 + (972 : ℤ)) := by norm_num
        _ ≤ 2 ^ (52 + e) := zpow_le_zpow_right₀ (by norm_num) (by omega)
        _ = 2 ^ 52 * 2 ^ e := by rw [zpow_add₀ (by norm_num)]; norm_num
        _ ≤ m * 2 ^ e := by
          apply mul_le_mul_of_nonneg_right _ (by positivity)
          exact_mod_cast hnormal.resolve_right (by omega)
    rw [if_neg hrange, storedValue?, unpack_pack_of_lt (not_le.mp hmost)]
    rfl

theorem storedValue?_nearestDatum (hq : 0 < q) :
    storedValue? (nearestDatum s q) = nearest? (signed s q) := by
  have hpow : (0 : ℚ) < 2 ^ lastPlace q := by positivity
  have hnonneg : 0 ≤ roundHalfEven (q / 2 ^ lastPlace q) := by
    have hzero := roundHalfEven_mono (div_nonneg hq.le hpow.le)
    rwa [← Int.cast_zero, roundHalfEven_intCast] at hzero
  have hle := (abs_le.mp (abs_roundHalfEven_le q)).2
  obtain ⟨n, hn⟩ : ∃ n : ℕ, roundHalfEven (q / 2 ^ lastPlace q) = n :=
    ⟨_, (Int.toNat_of_nonneg hnonneg).symm⟩
  have hvalue : nearest q = n * 2 ^ lastPlace q := by
    rw [nearest, hn, Int.cast_natCast]
  have hleast := neg_1074_le_lastPlace q
  have hnormal : 2 ^ 52 ≤ n ∨ lastPlace q = -1074 := by
    rcases hleast.lt_or_eq with hlt | heq
    · left
      have hfull := two_zpow_lastPlace_le hlt hq.ne'
      rw [abs_of_pos hq] at hfull
      have hscaled := le_nearest (q := q) (n := 1) (e := lastPlace q + 52) (by omega)
        (by rwa [Int.cast_one, one_mul])
      rw [hvalue, Int.cast_one, one_mul, add_comm, zpow_add₀ (by norm_num)] at hscaled
      exact_mod_cast le_of_mul_le_mul_right hscaled hpow
    · exact .inr heq.symm
  rw [nearest?, nearest_signed, abs_signed, hvalue,
    abs_of_nonneg (mul_nonneg (Nat.cast_nonneg n) hpow.le), nearestDatum]
  simp only [hn, Int.toNat_natCast]
  split
  · next hzero =>
    rw [hzero, Nat.cast_zero, zero_mul, if_pos (by positivity)]
    rw [(Denotes.zero s).storedValue?_eq]
    cases s
    · exact congrArg some neg_zero.symm
    · rfl
  · split
    · next hpos hcarry =>
      have hshift : ((2 ^ 52 : ℕ) : ℚ) * 2 ^ (lastPlace q + 1) = n * 2 ^ lastPlace q := by
        rw [hcarry, zpow_add₀ (by norm_num)]
        push_cast
        ring
      rw [storedValue?_finite (by norm_num) (by omega) (.inl le_rfl), hshift]
    · next hpos hcarry => exact storedValue?_finite (by omega) hleast hnormal

theorem storedValue?_round (hm : 0 < m) (e : ℤ) :
    storedValue? (UnpackedFloat.round .binary64 s m e) = nearest? (signed s (m * 2 ^ e)) := by
  rw [round_eq_nearestDatum hm, storedValue?_nearestDatum (by positivity)]

theorem storedValue?_normalize (c : ℤ) (e : ℤ) (z : Sign) :
    storedValue? (UnpackedFloat.normalize .binary64 c e z) = nearest? ((c : ℚ) * 2 ^ e) := by
  rw [UnpackedFloat.normalize]
  rcases lt_trichotomy c 0 with hc | rfl | hc
  · obtain ⟨n, rfl⟩ : ∃ n : ℕ, c = -n := ⟨c.natAbs, by omega⟩
    rw [Int.compare_eq_lt.mpr hc]
    simp only [neg_neg, Int.toNat_natCast]
    rw [storedValue?_round (by omega), signed, Int.cast_neg, Int.cast_natCast, neg_mul]
  · rw [Int.compare_eq_eq.mpr rfl, Int.cast_zero, zero_mul, (Denotes.zero z).nearest?_eq]
    exact (Denotes.zero z).storedValue?_eq
  · obtain ⟨n, rfl⟩ : ∃ n : ℕ, c = n := ⟨c.natAbs, by omega⟩
    rw [Int.compare_eq_gt.mpr hc]
    simp only [Int.toNat_natCast, Int.cast_natCast]
    rw [storedValue?_round (by omega), signed]

/-! ### Operations on data -/

theorem signed_decreaseExponent (s : Sign) (m : ℕ) {e f : ℤ} (h : f ≤ e) :
    ((s.apply (decreaseExponent m e f).1 : ℤ) : ℚ) * 2 ^ f = signed s (m * 2 ^ e) := by
  obtain ⟨k, rfl⟩ := Int.le.dest h
  have hamount : (f + k - f).toNat = k := by omega
  rw [cast_apply, decreaseExponent, hamount, Nat.shiftLeft_eq, zpow_add₀ (by norm_num),
    zpow_natCast]
  cases s <;> simp only [signed] <;> push_cast <;> ring

theorem mul_finite_eq_nearestDatum {t : Sign} {n : ℕ} {f : ℤ} {hm : 0 < m} {hn : 0 < n}
    (h : e + f ≤ lastPlace (m * 2 ^ e * (n * 2 ^ f))) :
    UnpackedFloat.mul .binary64 (.finite s m e hm) (.finite t n f hn) =
      nearestDatum (s * t) (m * 2 ^ e * (n * 2 ^ f)) := by
  apply roundWithAccuracy_eq_nearestDatum (by positivity) _ h
  have hscaled : (m : ℚ) * 2 ^ e * (n * 2 ^ f) / 2 ^ (e + f) = (m * n : ℕ) := by
    rw [zpow_add₀ (by norm_num)]
    push_cast
    field_simp
  rw [hscaled]
  exact abbreviates_exact _

theorem two_zpow_le_div {n : ℕ} (e f : ℤ) (hm : 0 < m) (hn : 0 < n) :
    (2 : ℚ) ^ (totalExponent m e - totalExponent n f - 1) ≤ m * 2 ^ e / (n * 2 ^ f) := by
  have hlower : (2 : ℚ) ^ m.log2 ≤ m := by
    exact_mod_cast Nat.log2_self_le hm.ne'
  have hupper : (n : ℚ) ≤ 2 ^ (n.log2 + 1) := by
    exact_mod_cast (Nat.lt_log2_self : n < 2 ^ (n.log2 + 1)).le
  have hexponent : totalExponent m e - totalExponent n f - 1 =
      m.log2 + e - ((n.log2 + 1 : ℕ) + f) := by
    simp only [totalExponent]
    push_cast
    ring
  rw [hexponent, zpow_sub₀ (by norm_num), zpow_add₀ (by norm_num), zpow_add₀ (by norm_num),
    zpow_natCast, zpow_natCast]
  gcongr

/-- A quotient is computed with enough bits for rounding, whatever the operands. -/
theorem div_finite_eq_nearestDatum {n : ℕ} (s t : Sign) (e f : ℤ) (hm : 0 < m) (hn : 0 < n) :
    UnpackedFloat.div .binary64 (.finite s m e hm) (.finite t n f hn) =
      nearestDatum (s / t) (m * 2 ^ e / (n * 2 ^ f)) := by
  obtain ⟨target, htarget⟩ : ∃ target, target = min (e - f)
      (Format.binary64.targetExponent (totalExponent m e - totalExponent n f)) := ⟨_, rfl⟩
  obtain ⟨j, hj⟩ := Int.le.dest (htarget.le.trans (min_le_left _ _))
  have hamount : (e - f - target).toNat = j := by omega
  have hpos : (0 : ℚ) < m * 2 ^ e / (n * 2 ^ f) := by positivity
  have hquotient : (m : ℚ) * 2 ^ e / (n * 2 ^ f) / 2 ^ target =
      (m * 2 ^ j / n : ℕ) + (m * 2 ^ j % n : ℕ) / n := by
    have hdiv : (n : ℚ) * (m * 2 ^ j / n : ℕ) + (m * 2 ^ j % n : ℕ) = m * 2 ^ j := by
      exact_mod_cast Nat.div_add_mod (m * 2 ^ j) n
    have he : e = f + target + j := by omega
    rw [he, zpow_add₀ (by norm_num) (f + target), zpow_add₀ (by norm_num) f, zpow_natCast]
    field_simp
    linarith
  have hplace : target ≤ lastPlace (m * 2 ^ e / (n * 2 ^ f)) := by
    refine (htarget.le.trans (min_le_right _ _)).trans (max_le ?_ (neg_1074_le_lastPlace _))
    apply le_lastPlace_of_le_abs hpos.ne'
    rw [abs_of_pos hpos]
    have hexponent : totalExponent m e - totalExponent n f - (Format.binary64.mantissaBits : ℕ) +
        52 = totalExponent m e - totalExponent n f - 1 := by
      have hbits : ((Format.binary64.mantissaBits : ℕ) : ℤ) = 53 := rfl
      omega
    rw [hexponent]
    exact two_zpow_le_div e f hm hn
  simp only [UnpackedFloat.div, divCore, ← htarget, hamount, Nat.shiftLeft_eq]
  apply roundWithAccuracy_eq_nearestDatum hpos _ hplace
  rw [hquotient]
  exact abbreviates_accuracyOfFraction (Nat.mod_lt _ hn) _

namespace Denotes

theorem add (hu : Denotes u p) (hv : Denotes v q) :
    storedValue? (UnpackedFloat.add .binary64 u v) = nearest? (p + q) := by
  cases hu with
  | zero s =>
    rw [zero_add, hv.nearest?_eq]
    cases hv with
    | zero t =>
      rw [UnpackedFloat.add]
      split <;> exact (Denotes.zero _).storedValue?_eq
    | finite t hn hv => exact (Denotes.finite t hn hv).storedValue?_eq
  | @finite s m e hm hu =>
    cases hv with
    | zero t =>
      rw [add_zero, (Denotes.finite s hm hu).nearest?_eq]
      exact (Denotes.finite s hm hu).storedValue?_eq
    | @finite t n f hn hv =>
      have hleft := signed_decreaseExponent s m (min_le_left e f)
      have hright := signed_decreaseExponent t n (min_le_right e f)
      rw [← hleft, ← hright, ← add_mul, ← Int.cast_add]
      exact storedValue?_normalize _ _ _

theorem sub (hu : Denotes u p) (hv : Denotes v q) :
    storedValue? (UnpackedFloat.sub .binary64 u v) = nearest? (p - q) := by
  have hadd : UnpackedFloat.sub .binary64 u v = UnpackedFloat.add .binary64 u v.neg := by
    cases u <;> cases v <;> try rfl
    simp only [UnpackedFloat.sub, UnpackedFloat.add, UnpackedFloat.neg, neg_apply]
    rfl
  rw [hadd, sub_eq_add_neg]
  exact hu.add hv.neg

/-- The product of two mantissas has no room to spare. -/
theorem exponent_add_le {m n : ℕ} {e f : ℤ} (hm : IsCanonical m e) (hn : IsCanonical n f)
    (hmpos : 0 < m) (hnpos : 0 < n) : e + f ≤ lastPlace (m * 2 ^ e * (n * 2 ^ f)) := by
  have hpos : (0 : ℚ) < m * 2 ^ e * (n * 2 ^ f) := by positivity
  have hfull : 2 ^ 52 ≤ m ∨ 2 ^ 52 ≤ n ∨ e + f ≤ -1074 := by
    rcases hm.normal with hnormal | rfl
    · exact .inl hnormal
    · rcases hn.normal with hnormal | rfl
      · exact .inr (.inl hnormal)
      · exact .inr (.inr (by norm_num))
  have hproduct : 2 ^ 52 ≤ m * n → e + f ≤ lastPlace (m * 2 ^ e * (n * 2 ^ f)) := by
    intro hlong
    apply le_lastPlace_of_le_abs hpos.ne'
    rw [abs_of_pos hpos]
    have hcast : (2 : ℚ) ^ 52 ≤ m * n := by
      exact_mod_cast hlong
    calc
      (2 : ℚ) ^ (e + f + 52) = 2 ^ 52 * (2 ^ e * 2 ^ f) := by
        rw [zpow_add₀ (by norm_num), zpow_add₀ (by norm_num), mul_comm]
        norm_num
      _ ≤ m * n * (2 ^ e * 2 ^ f) := mul_le_mul_of_nonneg_right hcast (by positivity)
      _ = m * 2 ^ e * (n * 2 ^ f) := by ring
  rcases hfull with hfull | hfull | hleast
  · exact hproduct (hfull.trans (Nat.le_mul_of_pos_right m hnpos))
  · exact hproduct (hfull.trans (Nat.le_mul_of_pos_left n hmpos))
  · exact hleast.trans (neg_1074_le_lastPlace _)

theorem mul (hu : Denotes u p) (hv : Denotes v q) :
    storedValue? (UnpackedFloat.mul .binary64 u v) = nearest? (p * q) := by
  cases hu with
  | zero s =>
    rw [zero_mul, (Denotes.zero s).nearest?_eq]
    cases hv <;> exact (Denotes.zero _).storedValue?_eq
  | @finite s m e hm hu =>
    cases hv with
    | zero t =>
      rw [mul_zero, (Denotes.zero t).nearest?_eq]
      exact (Denotes.zero _).storedValue?_eq
    | @finite t n f hn hv =>
      rw [mul_finite_eq_nearestDatum (exponent_add_le hu hv hm hn),
        storedValue?_nearestDatum (by positivity), signed_mul_signed]

theorem div (hu : Denotes u p) (hv : Denotes v q) (hq : q ≠ 0) :
    storedValue? (UnpackedFloat.div .binary64 u v) = nearest? (p / q) := by
  cases hv with
  | zero t => exact absurd rfl hq
  | @finite t n f hn hv =>
    cases hu with
    | zero s =>
      rw [zero_div, (Denotes.zero s).nearest?_eq]
      exact (Denotes.zero _).storedValue?_eq
    | @finite s m e hm hu =>
      rw [div_finite_eq_nearestDatum, storedValue?_nearestDatum (by positivity), signed_div_signed]

end Denotes

/-! ### Operations on floats -/

theorem exactValue?_abs (hx : exactValue? x = some p) : exactValue? x.abs = some |p| :=
  (exactValue?_eq_some_iff.mp hx).abs.storedValue?_eq

theorem exactValue?_neg (x : Float) : exactValue? (-x) = (exactValue? x).map fun q ↦ -q := by
  cases hx : exactValue? x with
  | some q => exact (exactValue?_eq_some_iff.mp hx).neg.storedValue?_eq
  | none =>
    rw [exactValue?] at hx
    show storedValue? x.toModel.unpack.neg = none
    generalize x.toModel.unpack = u at hx ⊢
    cases u with
    | zero s | finite s m e hm => cases hx
    | infinity s => cases s <;> rfl
    | notANumber => rfl

theorem unpack_zero : (0 : Float).toModel.unpack = .zero .positive := by
  rfl

theorem exactValue?_zero : exactValue? 0 = some 0 := by
  rw [exactValue?, unpack_zero]
  rfl

section Rounded

variable (hx : exactValue? x = some p) (hy : exactValue? y = some q)
include hx hy

theorem exactValue?_add_eq : exactValue? (x + y) = nearest? (p + q) :=
  (exactValue?_eq_some_iff.mp hx).add (exactValue?_eq_some_iff.mp hy)

theorem exactValue?_sub_eq : exactValue? (x - y) = nearest? (p - q) :=
  (exactValue?_eq_some_iff.mp hx).sub (exactValue?_eq_some_iff.mp hy)

theorem exactValue?_mul_eq : exactValue? (x * y) = nearest? (p * q) :=
  (exactValue?_eq_some_iff.mp hx).mul (exactValue?_eq_some_iff.mp hy)

theorem exactValue?_div_eq (hq : q ≠ 0) : exactValue? (x / y) = nearest? (p / q) :=
  (exactValue?_eq_some_iff.mp hx).div (exactValue?_eq_some_iff.mp hy) hq

theorem exactValue?_add (h : Representable (p + q)) : exactValue? (x + y) = some (p + q) :=
  (exactValue?_add_eq hx hy).trans (nearest?_of_representable h)

theorem exactValue?_sub (h : Representable (p - q)) : exactValue? (x - y) = some (p - q) :=
  (exactValue?_sub_eq hx hy).trans (nearest?_of_representable h)

theorem exactValue?_mul (h : Representable (p * q)) : exactValue? (x * y) = some (p * q) :=
  (exactValue?_mul_eq hx hy).trans (nearest?_of_representable h)

theorem exactValue?_div (hq : q ≠ 0) (h : Representable (p / q)) :
    exactValue? (x / y) = some (p / q) :=
  (exactValue?_div_eq hx hy hq).trans (nearest?_of_representable h)

end Rounded

theorem exactValue?_zero_sub (x : Float) :
    exactValue? (0 - x) = (exactValue? x).map fun q ↦ -q := by
  cases hx : exactValue? x with
  | some q =>
    rw [exactValue?_sub_eq exactValue?_zero hx, zero_sub]
    exact (exactValue?_eq_some_iff.mp hx).neg.nearest?_eq
  | none =>
    rw [exactValue?] at hx
    show storedValue? (UnpackedFloat.sub .binary64 (0 : Float).toModel.unpack x.toModel.unpack) =
      none
    rw [unpack_zero]
    generalize x.toModel.unpack = u at hx ⊢
    cases u with
    | zero s | finite s m e hm => cases hx
    | infinity s => cases s <;> rfl
    | notANumber => rfl

end PocketCalculator
