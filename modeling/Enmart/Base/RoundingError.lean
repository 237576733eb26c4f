import Enmart.Base.Rounding

/-!
# How far rounding goes

Rounding to a format changes a number by at most `unit` of itself, as long as
the number has digits above the least exponent to be rounded to (`IsFine`):
multiples of the least number of the format do, and so does what is not too
small. So a sum that is rounded after each addition is off by at most
`(1 + unit) ^ n` of the sum of the magnitudes, less one (`abs_sumRounded_sub_le`),
and it is not off at all where every partial sum is in the format.
-/

/-- The nearest integer is half a unit away at most. -/
theorem abs_nearestEven_sub_le (x : ℚ) : |nearestEven x - x| ≤ 1 / 2 := by
  have hfract := Int.floor_add_fract x
  have hnn := Int.fract_nonneg x
  have hlt := Int.fract_lt_one x
  have hdown (h : Int.fract x ≤ 1 / 2) : |(⌊x⌋ : ℚ) - x| ≤ 1 / 2 :=
    abs_le.mpr ⟨by linarith, by linarith⟩
  have hup (h : 1 / 2 ≤ Int.fract x) : |((⌊x⌋ + 1 : ℤ) : ℚ) - x| ≤ 1 / 2 := by
    push_cast
    exact abs_le.mpr ⟨by linarith, by linarith⟩
  unfold nearestEven
  split
  · next h => exact hdown h.le
  · next h =>
    split
    · next h' => exact hup h'.le
    · next h' =>
      split
      · exact hdown (not_lt.mp h')
      · exact hup (not_lt.mp h)

namespace FloatFormat

variable (F : FloatFormat) {q : ℚ}

/-- **The part of a number that rounding changes it by**, at most. -/
def unit : ℚ := 1 / 2 ^ F.precision

/-- A number without digits below the least exponent. -/
def IsMultiple (q : ℚ) : Prop := ∃ n : ℤ, q = n * 2 ^ F.minExponent

/-- **A number with digits for a whole significand**, or without digits below the
least exponent. -/
def IsFine (q : ℚ) : Prop :=
  F.IsMultiple q ∨ F.minExponent ≤ Int.log 2 |q| - (F.precision - 1)

theorem unit_pos : 0 < F.unit := by
  unfold unit
  positivity

/-- Rounding goes half the place of the last digit at most. -/
theorem abs_round_sub_le (q : ℚ) : |F.round q - q| ≤ 2 ^ F.exponent q / 2 := by
  have hpow : (0 : ℚ) < 2 ^ F.exponent q := zpow_pos (by norm_num) _
  have hsplit : F.round q - q
      = (nearestEven (q / 2 ^ F.exponent q) - q / 2 ^ F.exponent q) * 2 ^ F.exponent q := by
    rw [round, sub_mul, div_mul_cancel₀ _ hpow.ne']
  rw [hsplit, abs_mul, abs_of_pos hpow]
  have hhalf := mul_le_mul_of_nonneg_right (abs_nearestEven_sub_le (q / 2 ^ F.exponent q)) hpow.le
  linarith

variable {F}

/-- A number of the format has no digits below the least exponent. -/
theorem IsRepresentable.isMultiple (h : F.IsRepresentable q) : F.IsMultiple q := by
  obtain ⟨n, e, -, he, rfl⟩ := h
  obtain ⟨k, hk⟩ := Int.eq_ofNat_of_zero_le (sub_nonneg.mpr he)
  refine ⟨n * 2 ^ k, ?_⟩
  rw [show e = F.minExponent + k by omega, zpow_add₀ (by norm_num), zpow_natCast]
  push_cast
  ring

namespace IsMultiple

variable {p : ℚ}

theorem add (hp : F.IsMultiple p) (hq : F.IsMultiple q) : F.IsMultiple (p + q) := by
  obtain ⟨m, rfl⟩ := hp
  obtain ⟨n, rfl⟩ := hq
  exact ⟨m + n, by push_cast; ring⟩

theorem mul_intCast (hq : F.IsMultiple q) (k : ℤ) : F.IsMultiple (q * k) := by
  obtain ⟨n, rfl⟩ := hq
  exact ⟨n * k, by push_cast; ring⟩

/-- A number at the least exponent is its own rounding. -/
theorem round_eq (hq : F.IsMultiple q) (hexp : F.exponent q = F.minExponent) :
    F.round q = q := by
  obtain ⟨n, hn⟩ := hq
  have hpow : (2 : ℚ) ^ F.minExponent ≠ 0 := zpow_ne_zero _ (by norm_num)
  rw [round, hexp, (div_eq_iff hpow).mpr hn, nearestEven_intCast]
  exact hn.symm

end IsMultiple

/-- **The error of a rounding**, relative to the number. -/
theorem IsFine.abs_round_sub_le (h : F.IsFine q) : |F.round q - q| ≤ F.unit * |q| := by
  rcases eq_or_ne q 0 with rfl | hq
  · rw [round_zero, sub_zero, abs_zero, mul_zero]
  · have hnn : 0 ≤ F.unit * |q| := mul_nonneg F.unit_pos.le (abs_nonneg q)
    by_cases hexp : Int.log 2 |q| - (F.precision - 1) < F.minExponent
    · -- below the whole significands there are the multiples, which are not rounded
      have hmultiple : F.IsMultiple q := h.resolve_right (not_le.mpr hexp)
      rw [hmultiple.round_eq (max_eq_right hexp.le), sub_self, abs_zero]
      exact hnn
    · have hlast : F.exponent q = Int.log 2 |q| + 1 - F.precision := by
        rw [exponent, max_eq_left (not_lt.mp hexp)]
        ring
      have hlog : ((2 : ℕ) : ℚ) ^ Int.log 2 |q| ≤ |q| :=
        Int.zpow_log_le_self (by norm_num) (abs_pos.mpr hq)
      calc |F.round q - q| ≤ 2 ^ F.exponent q / 2 := F.abs_round_sub_le q
        _ = F.unit * 2 ^ Int.log 2 |q| := by
            rw [hlast, zpow_sub₀ (by norm_num), zpow_add_one₀ (by norm_num), zpow_natCast, unit]
            field_simp
        _ ≤ F.unit * |q| := mul_le_mul_of_nonneg_left hlog F.unit_pos.le

/-- **The error of a rounding**, of any number: below the whole significands it is
at most half the least place. -/
theorem abs_round_sub_le_add (F : FloatFormat) (q : ℚ) :
    |F.round q - q| ≤ F.unit * |q| + 2 ^ F.minExponent / 2 := by
  have hmin : (0 : ℚ) < 2 ^ F.minExponent := zpow_pos (by norm_num) _
  have hnn : 0 ≤ F.unit * |q| := mul_nonneg F.unit_pos.le (abs_nonneg q)
  rcases lt_or_ge (Int.log 2 |q| - (F.precision - 1)) F.minExponent with hexp | hexp
  · have h := F.abs_round_sub_le q
    rw [exponent, max_eq_right hexp.le] at h
    linarith
  · have h := IsFine.abs_round_sub_le (F := F) (q := q) (Or.inr hexp)
    linarith

/-- **Rounding does not mix up** numbers one of which is four times the other, or
more. -/
theorem round_lt_round (hprecision : 2 ≤ F.precision) (hmin : F.minExponent ≤ -3) {x y : ℚ}
    (hxy : 4 * x ≤ y) (hy : 1 ≤ y) : F.round x < F.round y := by
  have hunit : F.unit ≤ 1 / 4 := by
    have hpow : (2 : ℚ) ^ 2 ≤ 2 ^ F.precision := pow_le_pow_right₀ (by norm_num) hprecision
    exact one_div_le_one_div_of_le (by norm_num) (by linarith)
  have hleast : (2 : ℚ) ^ F.minExponent ≤ 1 / 8 := by
    calc (2 : ℚ) ^ F.minExponent ≤ 2 ^ (-3 : ℤ) := zpow_le_zpow_right₀ (by norm_num) hmin
      _ = 1 / 8 := by norm_num
  have herror : ∀ q : ℚ, |F.round q - q| ≤ |q| / 4 + 1 / 16 := by
    intro q
    have h := mul_le_mul_of_nonneg_right hunit (abs_nonneg q)
    have hround := F.abs_round_sub_le_add q
    linarith
  have hup := (abs_le.mp (herror x)).2
  have hlo := (abs_le.mp (herror y)).1
  rw [abs_of_pos (lt_of_lt_of_le one_pos hy)] at hlo
  rcases le_total 0 x with hx | hx
  · rw [abs_of_nonneg hx] at hup
    linarith
  · rw [abs_of_nonpos hx] at hup
    linarith

/-- **The error of a product** one of whose factors is rounded first. -/
theorem abs_round_mul_round_sub_le {x y : ℚ} (hy : F.IsFine y) (hxy : F.IsFine (x * F.round y)) :
    |F.round (x * F.round y) - x * y| ≤ F.unit * (2 + F.unit) * |x * y| := by
  have hfactor : |x * F.round y - x * y| ≤ F.unit * |x * y| := by
    rw [← mul_sub, abs_mul, abs_mul, mul_left_comm]
    exact mul_le_mul_of_nonneg_left hy.abs_round_sub_le (abs_nonneg x)
  have hsize : |x * F.round y| ≤ (1 + F.unit) * |x * y| := by
    have h := abs_add_le (x * F.round y - x * y) (x * y)
    rw [sub_add_cancel] at h
    linarith
  calc |F.round (x * F.round y) - x * y|
      ≤ |F.round (x * F.round y) - x * F.round y| + |x * F.round y - x * y| := abs_sub_le _ _ _
    _ ≤ F.unit * ((1 + F.unit) * |x * y|) + F.unit * |x * y| :=
        add_le_add (hxy.abs_round_sub_le.trans
          (mul_le_mul_of_nonneg_left hsize F.unit_pos.le)) hfactor
    _ = F.unit * (2 + F.unit) * |x * y| := by ring

/-- A whole number has no digits below the least exponent. -/
theorem isMultiple_intCast (hmin : F.minExponent ≤ 0) (n : ℤ) : F.IsMultiple n := by
  obtain ⟨k, hk⟩ := Int.eq_ofNat_of_zero_le (neg_nonneg.mpr hmin)
  refine ⟨n * 2 ^ k, ?_⟩
  rw [show F.minExponent = -(k : ℤ) by omega, zpow_neg, zpow_natCast]
  push_cast
  rw [mul_assoc, mul_inv_cancel₀ (by positivity), mul_one]

/-- A whole number that is not too long is in the format. -/
theorem isRepresentable_intCast (hmin : F.minExponent ≤ 0) {n : ℤ} (hn : |n| ≤ 2 ^ F.precision) :
    F.IsRepresentable n := by
  rcases lt_or_eq_of_le hn with hlt | heq
  · exact ⟨n, 0, hlt, hmin, by rw [zpow_zero, mul_one]⟩
  · -- a power of two has one digit
    obtain ⟨p, hp⟩ := Nat.exists_eq_add_of_lt F.precision_pos
    rw [zero_add] at hp
    obtain ⟨m, hm⟩ : (2 : ℤ) ∣ n := by
      rw [← dvd_abs, heq, hp]
      exact dvd_pow_self 2 (by omega)
    refine ⟨m, 1, ?_, by omega, ?_⟩
    · rw [hm, abs_mul, show |(2 : ℤ)| = 2 from rfl] at heq
      have hpos : (0 : ℤ) < 2 ^ F.precision := by positivity
      omega
    · rw [hm, zpow_one]
      push_cast
      ring

/-- **A whole factor of a number of the format is in the format.** -/
theorem IsRepresentable.of_intCast_mul (hmin : F.minExponent ≤ 0) {m n : ℤ} (hm : m ≠ 0)
    (h : F.IsRepresentable ((m * n : ℤ) : ℚ)) : F.IsRepresentable (n : ℚ) := by
  rcases eq_or_ne n 0 with rfl | hn
  · exact isRepresentable_intCast hmin (by rw [abs_zero]; positivity)
  obtain ⟨a, e, ha, -, he⟩ := h
  have ha0 : a ≠ 0 := by
    rintro rfl
    rw [Int.cast_zero, zero_mul] at he
    exact mul_ne_zero hm hn (by exact_mod_cast he)
  have hlt : a.natAbs < 2 ^ F.precision := by
    rw [← Int.ofNat_lt, Int.natCast_natAbs]
    exact_mod_cast ha
  obtain ⟨j, o, hodd, ho⟩ := Nat.exists_eq_two_pow_mul_odd (Int.natAbs_ne_zero.mpr hn)
  -- the odd part of the factor divides the significand
  have hdvd : o ∣ a.natAbs := by
    have hon : (o : ℤ) ∣ m * n := by
      refine Dvd.dvd.mul_left ?_ m
      rw [← Int.dvd_natAbs, ho]
      exact_mod_cast Dvd.intro_left _ rfl
    rcases le_or_gt 0 e with hpos | hneg
    · obtain ⟨k, rfl⟩ := Int.eq_ofNat_of_zero_le hpos
      have hint : m * n = a * 2 ^ k := by exact_mod_cast he
      have hon' : o ∣ a.natAbs * 2 ^ k := by
        rw [hint] at hon
        have := Int.natAbs_dvd_natAbs.mpr hon
        rwa [Int.natAbs_natCast, Int.natAbs_mul, Int.natAbs_pow] at this
      exact (Nat.Coprime.pow_right k (Nat.coprime_two_right.mpr hodd)).dvd_of_dvd_mul_right hon'
    · obtain ⟨k, hk⟩ := Int.eq_ofNat_of_zero_le (le_of_lt (Int.neg_pos_of_neg hneg))
      have hint : m * n * 2 ^ k = a := by
        rw [show e = -(k : ℤ) by omega, zpow_neg, zpow_natCast, ← div_eq_mul_inv,
          eq_div_iff (by positivity)] at he
        exact_mod_cast he
      rw [← hint]
      have := Int.natAbs_dvd_natAbs.mpr (hon.mul_right (2 ^ k))
      rwa [Int.natAbs_natCast] at this
  have hle : o ≤ a.natAbs := Nat.le_of_dvd (Int.natAbs_pos.mpr ha0) hdvd
  refine ⟨n.sign * o, j, ?_, by omega, ?_⟩
  · rw [abs_mul, Int.abs_sign_of_ne_zero hn, one_mul, Nat.abs_cast]
    exact_mod_cast lt_of_le_of_lt hle hlt
  · have hsplit : n = n.sign * o * 2 ^ j := by
      conv_lhs => rw [← Int.sign_mul_natAbs n, ho]
      push_cast
      ring
    rw [zpow_natCast]
    exact_mod_cast hsplit

/-! ## Sums -/

/-- **A sum that is rounded** after each addition. -/
def sumRounded (F : FloatFormat) (xs : List ℚ) (s : ℚ) : ℚ :=
  xs.foldl (fun s x => F.round (s + x)) s

/-- **A sum whose partial sums are in the format** is not rounded. -/
theorem sumRounded_eq {xs : List ℚ} {s : ℚ}
    (h : ∀ ys, ys <+: xs → F.IsRepresentable (s + ys.sum)) : F.sumRounded xs s = s + xs.sum := by
  induction xs generalizing s with
  | nil => rw [List.sum_nil, add_zero]; rfl
  | cons x xs ih =>
    have hfirst := h [x] ⟨xs, rfl⟩
    rw [List.sum_singleton] at hfirst
    show F.sumRounded xs (F.round (s + x)) = _
    rw [hfirst.round_eq, ih, List.sum_cons, add_assoc]
    intro ys hys
    have := h (x :: ys) (List.cons_prefix_cons.mpr ⟨rfl, hys⟩)
    rwa [List.sum_cons, ← add_assoc] at this

end FloatFormat
