import Mathlib

/-!
# Rounding to a binary floating-point format

A format has numbers `n * 2 ^ e` whose significand `n` has a bounded number of
binary digits and whose exponent `e` is bounded below (`IsRepresentable`). A
rational is rounded to the nearest of them by rounding its quotient by the
place of its last digit, ties going to the even significand.

What is rounded is in the format, and what is in the format is its own rounding
(`round_eq_self_iff`); so rounding twice is rounding once. The exponent has no
upper bound here: nothing overflows.
-/

/-- The nearest integer, and of two equally near the even one. -/
def nearestEven (x : ℚ) : ℤ :=
  if Int.fract x < 1 / 2 then ⌊x⌋
  else if 1 / 2 < Int.fract x then ⌊x⌋ + 1
  else if Even ⌊x⌋ then ⌊x⌋
  else ⌊x⌋ + 1

/-- An integer is the nearest to itself. -/
theorem nearestEven_intCast (n : ℤ) : nearestEven n = n := by
  rw [nearestEven, Int.fract_intCast, if_pos (by norm_num), Int.floor_intCast]

/-- The nearest integer is one of the two beside the number. -/
theorem nearestEven_bounds (x : ℚ) : ⌊x⌋ ≤ nearestEven x ∧ nearestEven x ≤ ⌈x⌉ := by
  have hup (h : ¬ Int.fract x < 1 / 2) : ⌊x⌋ + 1 ≤ ⌈x⌉ := by
    refine Int.add_one_le_iff.mpr (Int.lt_ceil.mpr ?_)
    have hfract := Int.floor_add_fract x
    linarith
  unfold nearestEven
  split
  · exact ⟨le_refl _, Int.floor_le_ceil x⟩
  · next h =>
    split
    · exact ⟨Int.le_of_lt (Int.lt_succ _), hup h⟩
    · split
      · exact ⟨le_refl _, Int.floor_le_ceil x⟩
      · exact ⟨Int.le_of_lt (Int.lt_succ _), hup h⟩

/-- A number within an integer of zero is rounded to one that is. -/
theorem abs_nearestEven_le {x : ℚ} {n : ℤ} (h : |x| ≤ n) : |nearestEven x| ≤ n := by
  obtain ⟨hlo, hhi⟩ := abs_le.mp h
  obtain ⟨hfloor, hceil⟩ := nearestEven_bounds x
  refine abs_le.mpr ⟨le_trans (Int.le_floor.mpr ?_) hfloor, le_trans hceil (Int.ceil_le.mpr hhi)⟩
  push_cast
  exact hlo

/-- **A binary floating-point format**: how many digits a significand has, and
the least exponent. -/
structure FloatFormat where
  precision : ℕ
  minExponent : ℤ
  /-- A significand has a digit. -/
  precision_pos : 0 < precision

namespace FloatFormat

variable (F : FloatFormat) {q : ℚ}

/-- **The number is one of the format.** -/
def IsRepresentable (q : ℚ) : Prop :=
  ∃ n e : ℤ, |n| < 2 ^ F.precision ∧ F.minExponent ≤ e ∧ q = n * 2 ^ e

/-- The exponent of the last digit of a number. -/
def exponent (q : ℚ) : ℤ := max (Int.log 2 |q| - (F.precision - 1)) F.minExponent

/-- **The number of the format nearest to a number.** -/
def round (q : ℚ) : ℚ := nearestEven (q / 2 ^ F.exponent q) * 2 ^ F.exponent q

/-- A number has no more digits before its last one than a significand. -/
theorem abs_div_exponent_le (q : ℚ) :
    |q / 2 ^ F.exponent q| ≤ ((2 ^ F.precision : ℤ) : ℚ) := by
  have hpow : (0 : ℚ) < 2 ^ F.exponent q := zpow_pos (by norm_num) _
  have hlog : Int.log 2 |q| + 1 ≤ F.precision + F.exponent q := by
    have hmax := le_max_left (Int.log 2 |q| - (F.precision - 1)) F.minExponent
    show _ ≤ _ + max _ _
    omega
  rw [abs_div, abs_of_pos hpow, div_le_iff₀ hpow]
  calc |q| ≤ ((2 : ℕ) : ℚ) ^ (Int.log 2 |q| + 1) :=
        le_of_lt (Int.lt_zpow_succ_log_self (by norm_num) _)
    _ ≤ 2 ^ ((F.precision : ℤ) + F.exponent q) :=
        zpow_le_zpow_right₀ (by norm_num) hlog
    _ = ((2 ^ F.precision : ℤ) : ℚ) * 2 ^ F.exponent q := by
        rw [zpow_add₀ (by norm_num), zpow_natCast]
        push_cast
        rfl

/-- **What is rounded is in the format.** -/
theorem isRepresentable_round (q : ℚ) : F.IsRepresentable (F.round q) := by
  have hmin : F.minExponent ≤ F.exponent q := le_max_right _ _
  have hle : |nearestEven (q / 2 ^ F.exponent q)| ≤ 2 ^ F.precision :=
    abs_nearestEven_le (F.abs_div_exponent_le q)
  rcases lt_or_eq_of_le hle with hlt | heq
  · exact ⟨_, _, hlt, hmin, rfl⟩
  · -- the significand has been carried to one digit more, which is a zero
    obtain ⟨p, hp⟩ := Nat.exists_eq_add_of_lt F.precision_pos
    have htwo : (2 : ℤ) ∣ nearestEven (q / 2 ^ F.exponent q) := by
      rw [← dvd_abs, heq, hp]
      exact dvd_pow_self 2 (by omega)
    obtain ⟨n, hn⟩ := htwo
    refine ⟨n, F.exponent q + 1, ?_, by omega, ?_⟩
    · rw [hn, abs_mul, show |(2 : ℤ)| = 2 from rfl] at heq
      have hpos : (0 : ℤ) < 2 ^ F.precision := by positivity
      omega
    · rw [round, hn, zpow_add_one₀ (by norm_num)]
      push_cast
      ring

variable {F}

/-- The denominator of a number of the format is a power of two. -/
theorem IsRepresentable.exists_den (h : F.IsRepresentable q) : ∃ k, q.den = 2 ^ k := by
  obtain ⟨n, e, -, -, rfl⟩ := h
  rcases le_or_gt 0 e with he | he
  · obtain ⟨k, rfl⟩ := Int.eq_ofNat_of_zero_le he
    refine ⟨0, ?_⟩
    have hint : (n : ℚ) * 2 ^ (k : ℤ) = ((n * 2 ^ k : ℤ) : ℚ) := by
      push_cast
      rfl
    rw [hint]
    rfl
  · obtain ⟨k, hk⟩ := Int.eq_ofNat_of_zero_le (le_of_lt (Int.neg_pos_of_neg he))
    have hdiv : (n : ℚ) * 2 ^ e = Rat.divInt n (2 ^ k : ℤ) := by
      rw [show e = -(k : ℤ) by omega, zpow_neg, zpow_natCast, Rat.divInt_eq_div]
      push_cast
      rfl
    have hdvd : ((n * 2 ^ e : ℚ).den : ℤ) ∣ 2 ^ k := by
      rw [hdiv]
      exact Rat.den_dvd n (2 ^ k)
    obtain ⟨j, -, hj⟩ := (Nat.dvd_prime_pow Nat.prime_two).mp (by exact_mod_cast hdvd)
    exact ⟨j, hj⟩

/-- A number of the format has no digit after its last one. -/
theorem IsRepresentable.exponent_le (h : F.IsRepresentable q) (hq : q ≠ 0) :
    ∃ n e : ℤ, q = n * 2 ^ e ∧ F.exponent q ≤ e := by
  obtain ⟨n, e, hn, hmin, rfl⟩ := h
  refine ⟨n, e, rfl, max_le ?_ hmin⟩
  have hpow : (0 : ℚ) < 2 ^ e := zpow_pos (by norm_num) _
  have hlt : |(n : ℚ) * 2 ^ e| < ((2 : ℕ) : ℚ) ^ ((F.precision : ℤ) + e) := by
    rw [abs_mul, abs_of_pos hpow, zpow_add₀ (by norm_num), zpow_natCast]
    have hn' : |(n : ℚ)| < 2 ^ F.precision := by exact_mod_cast hn
    push_cast
    exact mul_lt_mul_of_pos_right hn' hpow
  have hlog := (Int.lt_zpow_iff_log_lt (by norm_num) (abs_pos.mpr hq)).mp hlt
  omega

/-- **What is in the format is its own rounding.** -/
theorem IsRepresentable.round_eq (h : F.IsRepresentable q) : F.round q = q := by
  by_cases hq : q = 0
  · subst hq
    rw [round, zero_div, show (0 : ℚ) = ((0 : ℤ) : ℚ) from rfl, nearestEven_intCast]
    exact zero_mul _
  · obtain ⟨n, e, hne, hle⟩ := h.exponent_le hq
    obtain ⟨k, hk⟩ := Int.eq_ofNat_of_zero_le (sub_nonneg.mpr hle)
    have hpow : (2 : ℚ) ^ F.exponent q ≠ 0 := zpow_ne_zero _ (by norm_num)
    have hshift : q = ((n * 2 ^ k : ℤ) : ℚ) * 2 ^ F.exponent q := by
      rw [show F.exponent q = e - k by omega, zpow_sub₀ (by norm_num), zpow_natCast]
      push_cast
      rw [mul_assoc, mul_div_cancel₀ _ (by positivity)]
      exact hne
    have hquot : q / 2 ^ F.exponent q = ((n * 2 ^ k : ℤ) : ℚ) := by
      rw [div_eq_iff hpow]
      exact hshift
    rw [round, hquot, nearestEven_intCast]
    exact hshift.symm

/-- **The numbers that rounding leaves alone are those of the format.** -/
theorem round_eq_self_iff : F.round q = q ↔ F.IsRepresentable q := by
  constructor
  · intro h
    rw [← h]
    exact F.isRepresentable_round q
  · exact fun h => h.round_eq

/-- Zero is in every format. -/
@[simp] theorem round_zero (F : FloatFormat) : F.round 0 = 0 := by
  have hzero : F.IsRepresentable 0 :=
    ⟨0, F.minExponent, by rw [abs_zero]; positivity, le_refl _, by rw [Int.cast_zero, zero_mul]⟩
  exact hzero.round_eq

/-- Rounding twice is rounding once. -/
theorem round_round (F : FloatFormat) (q : ℚ) : F.round (F.round q) = F.round q :=
  (F.isRepresentable_round q).round_eq

end FloatFormat

/-- **The format of a double.** -/
def binary64 : FloatFormat := ⟨53, -1074, by decide⟩
