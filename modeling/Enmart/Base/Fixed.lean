import Enmart.Base.Decimals

/-!
# Numbers with a fixed number of digits after the point

`toStringAsFixed` shows a number as the nearest one with so many digits after the
point, and of two equally near the one further from zero. What is shown can be
read back, half a unit of the last digit from the number at most
(`doubleTryParse_toStringAsFixed`).
-/

/-- Digits for a number, zeros before them to have so many. -/
def paddedDigits (k n : ℕ) : List Char := List.leftpad k '0' (Nat.toDigits 10 n)

/-- **So many units of the last of `k` digits after the point.** -/
def fixedText (k n : ℕ) : List Char :=
  if k = 0 then Nat.toDigits 10 n
  else Nat.toDigits 10 (n / 10 ^ k) ++ '.' :: paddedDigits k (n % 10 ^ k)

/-- **`toStringAsFixed`**: a number that is too large is shown as it is. -/
def toStringAsFixed (showDouble : ℚ → String) (q : ℚ) (k : ℕ) : String :=
  if 10 ^ 21 ≤ |q| then showDouble q
  else if q < 0 then String.ofList ('-' :: fixedText k (round (|q| * 10 ^ k)).toNat)
  else String.ofList (fixedText k (round (|q| * 10 ^ k)).toNat)

example : toStringAsFixed (fun _ => "") (-33333 / 10000) 2 = "-3.33" := by decide +kernel

section Padding

variable {k n : ℕ}

/-- Zeros before digits are digits. -/
theorem allDigits_paddedDigits (k n : ℕ) : AllDigits (paddedDigits k n) := by
  refine AllDigits.append (fun c hc => ?_) (allDigits_toDigits n)
  rw [List.eq_of_mem_replicate hc]
  decide

/-- Zeros before the digits of a number leave the number as it is. -/
theorem digitsValue_paddedDigits (k n : ℕ) : digitsValue (paddedDigits k n) = n := by
  have hzeros (j : ℕ) : digitsValue (List.replicate j '0') = 0 := by
    induction j with
    | zero => rfl
    | succ j ih =>
      rw [List.replicate_succ', digitsValue_append, ih]
      rfl
  show digitsValue (List.replicate _ '0' ++ Nat.toDigits 10 n) = n
  rw [digitsValue_append, hzeros, mul_zero, zero_add, digitsValue_toDigits]

/-- A number that is not too long is padded to the length asked. -/
theorem length_paddedDigits (hk : 0 < k) (hn : n < 10 ^ k) : (paddedDigits k n).length = k := by
  have hlen : (Nat.toDigits 10 n).length ≤ k :=
    (Nat.length_toDigits_le_iff (by decide) hk).mpr hn
  show (List.replicate _ '0' ++ Nat.toDigits 10 n).length = k
  rw [List.length_append, List.length_replicate]
  omega

end Padding

/-- **What is shown is read back.** -/
theorem doubleTryParse_fixedText (k n : ℕ) :
    doubleTryParse (String.ofList (fixedText k n)) = some ((n : ℚ) / 10 ^ k) := by
  rw [fixedText]
  rcases Nat.eq_zero_or_pos k with rfl | hk
  · rw [if_pos rfl, doubleTryParse_digits (allDigits_toDigits n) Nat.toDigits_ne_nil,
      digitsValue_toDigits, pow_zero, div_one]
  · have hlt : n % 10 ^ k < 10 ^ k := Nat.mod_lt _ (by positivity)
    have hvalue : digitsValue (Nat.toDigits 10 (n / 10 ^ k) ++ paddedDigits k (n % 10 ^ k)) = n := by
      rw [digitsValue_append, length_paddedDigits hk hlt, digitsValue_toDigits,
        digitsValue_paddedDigits]
      exact Nat.div_add_mod n (10 ^ k)
    rw [if_neg hk.ne', doubleTryParse_point (allDigits_toDigits _) (allDigits_paddedDigits _ _)
      (fun hc => Nat.toDigits_ne_nil (List.append_eq_nil_iff.mp hc).1), hvalue,
      length_paddedDigits hk hlt]

/-- Two texts of as many digits are of one number. -/
theorem fixedText_injective (k : ℕ) : Function.Injective (fixedText k) := by
  intro m n h
  have hread := doubleTryParse_fixedText k m
  rw [h, doubleTryParse_fixedText, Option.some.injEq,
    div_left_inj' (by positivity : (10 : ℚ) ^ k ≠ 0)] at hread
  exact (Nat.cast_injective hread).symm

/-- What is shown of a number that is not negative. -/
theorem toStringAsFixed_of_nonneg {showDouble : ℚ → String} {q : ℚ} (h₀ : 0 ≤ q)
    (h : q < 10 ^ 21) (k : ℕ) :
    toStringAsFixed showDouble q k = String.ofList (fixedText k (round (q * 10 ^ k)).toNat) := by
  rw [toStringAsFixed, abs_of_nonneg h₀, if_neg (not_le.mpr h), if_neg (not_lt.mpr h₀)]

/-- **The text shows so many units exactly when the number is within half a unit of
them.** -/
theorem toStringAsFixed_eq_iff {showDouble : ℚ → String} {q : ℚ} (h₀ : 0 ≤ q) (h : q < 10 ^ 21)
    (k n : ℕ) :
    toStringAsFixed showDouble q k = String.ofList (fixedText k n)
      ↔ (n : ℚ) - 1 / 2 ≤ q * 10 ^ k ∧ q * 10 ^ k < n + 1 / 2 := by
  have hnn : 0 ≤ q * 10 ^ k := mul_nonneg h₀ (by positivity)
  have hround : 0 ≤ round (q * 10 ^ k) := by
    rw [round_eq]
    exact Int.floor_nonneg.mpr (by linarith)
  rw [toStringAsFixed_of_nonneg h₀ h, String.ofList_inj, (fixedText_injective k).eq_iff]
  constructor
  · intro hn
    have hfloor : ⌊q * 10 ^ k + 1 / 2⌋ = n := by
      rw [← round_eq]
      omega
    obtain ⟨hle, hlt⟩ := Int.floor_eq_iff.mp hfloor
    push_cast at hle hlt
    exact ⟨by linarith, by linarith⟩
  · rintro ⟨hle, hlt⟩
    have hfloor : ⌊q * 10 ^ k + 1 / 2⌋ = n :=
      Int.floor_eq_iff.mpr ⟨by push_cast; linarith, by push_cast; linarith⟩
    rw [round_eq, hfloor]
    rfl
