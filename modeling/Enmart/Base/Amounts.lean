import Mathlib

/-!
# Sums of 64-bit amounts

Counted quantities are 64-bit integers and their sum is taken in `ℤ`:
`amountSum f xs` is the sum a bookkeeper would write down, which no
overflow touches. A sum the machine computes agrees with it as long as it
stays in range, and `Int64.Fits` is that proviso.
-/

namespace Int64

/-- An integer a 64-bit signed word can hold. -/
def Fits (n : ℤ) : Prop := -2 ^ 63 ≤ n ∧ n < 2 ^ 63

instance (n : ℤ) : Decidable (Fits n) := inferInstanceAs (Decidable (_ ∧ _))

theorem fits_toInt (a : Int64) : Fits a.toInt := ⟨a.le_toInt, a.toInt_lt⟩

/-- **In range the machine addition is the addition of integers.** -/
theorem toInt_add_of_fits {a b : Int64} (h : Fits (a.toInt + b.toInt)) :
    (a + b).toInt = a.toInt + b.toInt := by
  rw [Int64.toInt_add]
  exact Int.bmod_eq_of_le (by have := h.1; omega) (by have := h.2; omega)

/-- **Out of range it wraps**: the sum of two non-negative words that do
not fit is negative. -/
theorem toInt_add_neg_of_not_fits {a b : Int64} (ha : 0 ≤ a.toInt)
    (hb : 0 ≤ b.toInt) (h : ¬ Fits (a.toInt + b.toInt)) :
    (a + b).toInt < 0 := by
  -- neither is negative, so what does not fit is too large
  have hlt : 2 ^ 63 ≤ a.toInt + b.toInt := by
    by_contra hc
    exact h ⟨by omega, by omega⟩
  have hmax := a.toInt_lt
  have hmax' := b.toInt_lt
  rw [Int64.toInt_add, Int.bmod_def]
  split <;> omega

/-- **In range the machine multiplication is the multiplication of integers.** -/
theorem toInt_mul_of_fits {a b : Int64} (h : Fits (a.toInt * b.toInt)) :
    (a * b).toInt = a.toInt * b.toInt := by
  rw [Int64.toInt_mul]
  exact Int.bmod_eq_of_le (by have := h.1; omega) (by have := h.2; omega)

/-- **Out of range it is off by more than half**: a product that wraps is no
approximation. -/
theorem fits_of_abs_toInt_mul_sub_le {a b : Int64}
    (h : 2 * |(a * b).toInt - a.toInt * b.toInt| ≤ |a.toInt * b.toInt|) :
    Fits (a.toInt * b.toInt) := by
  have hwrap : (a * b).toInt = a.toInt * b.toInt
      - (2 ^ 64 : ℕ) * (a.toInt * b.toInt).bdiv (2 ^ 64) := by
    rw [Int64.toInt_mul]
    exact Int.bmod_eq_self_sub_mul_bdiv _ _
  have hlo := (a * b).le_toInt
  have hhi := (a * b).toInt_lt
  generalize (a * b).toInt = w at h hwrap hlo hhi
  generalize (a.toInt * b.toInt).bdiv (2 ^ 64) = k at hwrap
  generalize a.toInt * b.toInt = x at h hwrap ⊢
  -- what it is off by is no more than half the range, and so nothing
  have hk : k = 0 := by
    rcases abs_cases (w - x) with ⟨h₁, h₁'⟩ | ⟨h₁, h₁'⟩ <;>
      rcases abs_cases x with ⟨h₂, h₂'⟩ | ⟨h₂, h₂'⟩ <;> omega
  subst hk
  exact ⟨by omega, by omega⟩

end Int64

/-- The sum of the amounts `f` reads off a list, as an integer. -/
def amountSum {α : Type} (f : α → Int64) (xs : List α) : ℤ :=
  (xs.map (fun x => (f x).toInt)).sum

section AmountSum

variable {α β : Type} (f : α → Int64)

@[simp] theorem amountSum_nil : amountSum f [] = 0 := rfl

@[simp] theorem amountSum_cons (x : α) (xs : List α) :
    amountSum f (x :: xs) = (f x).toInt + amountSum f xs := rfl

@[simp] theorem amountSum_append (xs ys : List α) :
    amountSum f (xs ++ ys) = amountSum f xs + amountSum f ys := by
  rw [amountSum, List.map_append, List.sum_append]
  rfl

theorem amountSum_map (g : β → α) (xs : List β) :
    amountSum f (xs.map g) = amountSum (fun x => f (g x)) xs := by
  rw [amountSum, List.map_map]
  rfl

/-- The order of the list does not matter to its sum. -/
theorem amountSum_perm {xs ys : List α} (h : xs.Perm ys) :
    amountSum f xs = amountSum f ys :=
  (h.map _).sum_eq

variable {f}

/-- Amounts read equally add up equally. -/
theorem amountSum_congr {g : α → Int64} {xs : List α}
    (h : ∀ x ∈ xs, f x = g x) : amountSum f xs = amountSum g xs :=
  congrArg List.sum (List.map_congr_left (fun x hx => by rw [h x hx]))

/-- Amounts that are never negative add up as natural numbers. -/
theorem amountSum_eq_sum_toNat {xs : List α} (h : ∀ x ∈ xs, 0 ≤ (f x).toInt) :
    amountSum f xs = ((xs.map (fun x => (f x).toInt.toNat)).sum : ℕ) := by
  rw [amountSum, Nat.cast_list_sum, List.map_map]
  exact congrArg List.sum (List.map_congr_left (fun x hx => (Int.toNat_of_nonneg (h x hx)).symm))

/-- Amounts that are never negative have a sum that is not. -/
theorem amountSum_nonneg {xs : List α} (h : ∀ x ∈ xs, 0 ≤ (f x).toInt) :
    0 ≤ amountSum f xs := by
  induction xs with
  | nil => exact Int.le_refl 0
  | cons x xs ih =>
    rw [amountSum_cons]
    exact Int.add_nonneg (h x (List.mem_cons_self ..))
      (ih (fun y hy => h y (List.mem_cons_of_mem x hy)))

/-- One of the amounts is at most their sum. -/
theorem le_amountSum {xs : List α} (h : ∀ x ∈ xs, 0 ≤ (f x).toInt) {x : α}
    (hx : x ∈ xs) : (f x).toInt ≤ amountSum f xs := by
  induction xs with
  | nil => exact absurd hx (List.not_mem_nil)
  | cons y ys ih =>
    have hy := h y (List.mem_cons_self ..)
    have hys : ∀ z ∈ ys, 0 ≤ (f z).toInt :=
      fun z hz => h z (List.mem_cons_of_mem y hz)
    have hnn := amountSum_nonneg hys
    rw [amountSum_cons]
    rcases List.mem_cons.mp hx with rfl | hx
    · omega
    · have := ih hys hx
      omega

/-- A smaller amount at each element is a smaller sum. -/
theorem amountSum_le {g : α → Int64} {xs : List α}
    (h : ∀ x ∈ xs, (f x).toInt ≤ (g x).toInt) :
    amountSum f xs ≤ amountSum g xs := by
  induction xs with
  | nil => exact Int.le_refl 0
  | cons x xs ih =>
    have hx := h x (List.mem_cons_self ..)
    have hxs := ih (fun y hy => h y (List.mem_cons_of_mem x hy))
    rw [amountSum_cons, amountSum_cons]
    exact Int.add_le_add hx hxs

/-- **Equal sums of amounts one below the other are equal throughout.** -/
theorem eq_of_amountSum_eq {g : α → Int64} {xs : List α}
    (h : ∀ x ∈ xs, (f x).toInt ≤ (g x).toInt)
    (hs : amountSum f xs = amountSum g xs) : ∀ x ∈ xs, f x = g x := by
  induction xs with
  | nil => intro x hx; exact absurd hx (List.not_mem_nil)
  | cons y ys ih =>
    have hy := h y (List.mem_cons_self ..)
    have hys : ∀ x ∈ ys, (f x).toInt ≤ (g x).toInt :=
      fun x hx => h x (List.mem_cons_of_mem y hx)
    have hle := amountSum_le hys
    rw [amountSum_cons, amountSum_cons] at hs
    intro x hx
    rcases List.mem_cons.mp hx with rfl | hx
    · exact Int64.toInt_inj.mp (by omega)
    · exact ih hys (by omega) x hx

/-- **The accumulating loop computes the sum** of non-negative amounts,
provided the result fits. -/
theorem toInt_foldl_add {xs : List α} (h : ∀ x ∈ xs, 0 ≤ (f x).toInt)
    {a : Int64} (ha : 0 ≤ a.toInt)
    (hfit : Int64.Fits (a.toInt + amountSum f xs)) :
    (xs.foldl (fun acc x => acc + f x) a).toInt
      = a.toInt + amountSum f xs := by
  induction xs generalizing a with
  | nil => rw [List.foldl_nil, amountSum_nil, Int.add_zero]
  | cons x xs ih =>
    have hx := h x (List.mem_cons_self ..)
    have hxs : ∀ y ∈ xs, 0 ≤ (f y).toInt :=
      fun y hy => h y (List.mem_cons_of_mem x hy)
    have hnn := amountSum_nonneg hxs
    rw [amountSum_cons] at hfit ⊢
    have hadd : (a + f x).toInt = a.toInt + (f x).toInt :=
      Int64.toInt_add_of_fits ⟨by omega, by have := hfit.2; omega⟩
    rw [List.foldl_cons, ih hxs (by omega) (by rw [hadd, Int.add_assoc]; exact hfit),
      hadd, Int.add_assoc]

end AmountSum
