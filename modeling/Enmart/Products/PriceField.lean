import Enmart.Base.Decimals
import Enmart.Base.RoundingError
import Enmart.Models.Product

/-!
# Typing a price

The dialog that edits a product shows its price in a text field. The price is a
double, and the text of a double has a point or an exponent in it, unlike that
of the 0 that stands for a price that could not be read. The field is formatted
by `digitsOnly`: at each edit everything that is no digit is taken out of the
whole of the text, the point of the price that was shown with it.

An edit is a digit inserted, or a character deleted, at a position of the text
in the field, and `typed` is what becomes of the field. The same edits can be
made in the text that was shown with nothing else taken out of it (`Intended`).
The first of them finds the same text there. The others find the same digits
(`IntendedFrom.typed_eq`), so a position of the field is one of that text but for
the characters the formatter has taken out, which may stand before the position
or after it. The dialog puts the double that the text in the field is read as,
and it is meant to put the one that the text intended is.

What is put are the digits of that text in a row. A literal is the number of its
digits only if it is a whole number without an exponent, or nothing but zeros
(`DoubleLiteral.round_digits_iff`); so the price typed is the price put exactly
where each literal the edits make is such a one (`typed_price_iff`).
-/

/-- An edit of a text field. -/
inductive FieldEdit where
  /-- A digit is inserted. -/
  | insert (d : Fin 10) (i : ℕ)
  /-- A character is deleted. -/
  | delete (i : ℕ)
  deriving DecidableEq, Repr

/-- **The text after an edit**, at a position the text has. -/
def FieldEdit.apply : FieldEdit → List Char → Option (List Char)
  | insert d i, cs =>
    if i ≤ cs.length then some (cs.take i ++ Nat.digitChar d :: cs.drop i) else none
  | delete i, cs => if i < cs.length then some (cs.take i ++ cs.drop (i + 1)) else none

/-- `FilteringTextInputFormatter.digitsOnly`. -/
def digitsOnly (cs : List Char) : List Char := cs.filter Char.isDigit

/-- **The text in the field**, formatted after each edit. -/
def typed (shown : List Char) (edits : List FieldEdit) : Option (List Char) :=
  edits.foldlM (fun cs e => (e.apply cs).map digitsOnly) shown

/-- **An edit of the field, made in a text** of which the field has the digits
only: its position counts the digits before it. Next to characters that are no
digits it stands on either side of them. -/
inductive Intends : List Char → FieldEdit → List Char → Prop
  | insert (as bs : List Char) (d : Fin 10) :
      Intends (as ++ bs) (.insert d (digitsOnly as).length) (as ++ Nat.digitChar d :: bs)
  | delete (as bs : List Char) {c : Char} (hc : c.isDigit = true) :
      Intends (as ++ c :: bs) (.delete (digitsOnly as).length) (as ++ bs)

/-- Edits of the field, one after the other. -/
def IntendedFrom : List Char → List FieldEdit → List Char → Prop
  | cs, [], text => text = cs
  | cs, e :: edits, text => ∃ ds, Intends cs e ds ∧ IntendedFrom ds edits text

/-- **The edits make the text of the one shown**: the first is made in it as it is
shown, and the field is formatted only then. -/
def Intended (shown : List Char) : List FieldEdit → List Char → Prop
  | [], text => text = shown
  | e :: edits, text => ∃ cs, e.apply shown = some cs ∧ IntendedFrom cs edits text

/-- The price the dialog puts for the text in the field: it puts none for an
empty one. -/
def pricePut (text : List Char) : Option Number :=
  if text = [] then none
  else some (((doubleTryParse (String.ofList text)).map
    (fun q => Number.double (binary64.round q))).getD (.int 0))

/-- **The price typed is the price put**: what the edits make of the text shown,
where it denotes a number, is read as the double that is put. -/
def TypedPricePut (shown : List Char) (edits : List FieldEdit) : Prop :=
  ∀ field text q x, typed shown edits = some field → Intended shown edits text →
    doubleTryParse (String.ofList text) = some q → pricePut field = some x →
    x.toRat = binary64.round q

/-! ## Literals that are the number of their digits -/

namespace DoubleLiteral

variable (l : DoubleLiteral)

/-- The digits of the exponent. -/
def exponentDigits : List Char := (l.exponent.map LiteralExponent.digits).getD []

/-- **All the digits of a literal**, in a row. -/
def digits : List Char := l.mantissaDigits ++ l.exponentDigits

/-- **A whole number**: no minus, no digit after a point and no exponent. -/
def IsWhole : Prop := l.sign ≠ ['-'] ∧ l.fractionDigits = [] ∧ l.exponent = none

/-- **The exponent is lost in rounding.** It moves the point behind as many digits
as there are in the literal, as taking out all that is no digit does, and a
double does not tell what then differs: the digits of the exponent. -/
def ExponentLost : Prop :=
  l.sign ≠ ['-'] ∧ l.exponent.isSome
    ∧ l.exponentValue = l.fractionDigits.length + l.exponentDigits.length
    ∧ binary64.round (digitsValue l.digits)
      = binary64.round (digitsValue l.mantissaDigits * 10 ^ l.exponentDigits.length)

/-- **The digits of a literal are its number**: it is whole, or nothing but zeros,
or its exponent is lost in rounding. -/
def IsItsDigits : Prop := l.IsWhole ∨ (∀ c ∈ l.digits, c = '0') ∨ l.ExponentLost

end DoubleLiteral

/-- **Each literal that the edits make is the number of its digits**, if there are
any edits. -/
def MakesWhole (shown : List Char) (edits : List FieldEdit) : Prop :=
  edits ≠ [] → ∀ l : DoubleLiteral, Intended shown edits l.text → l.IsItsDigits

/-! ## What is shown -/

/-- The text of a price, given the text of a double. -/
def priceText (showDouble : ℚ → String) : Number → List Char
  | .int n => (toString n.toInt).toList
  | .double q => (showDouble q).toList

/-- The mantissa of a literal with an exponent: no point without a fraction. -/
def mantissa (as bs : List Char) : List Char := if bs = [] then as else as ++ '.' :: bs

/-- **The text of a double** that is not negative: a decimal number, or, where it
is very small or very large, a literal with an exponent – which, for a large
one, is no less than the digits of the fraction and its own are many. -/
inductive IsDoubleText : List Char → Prop
  | plain {as bs : List Char} (ha : AllDigits as) (hb : AllDigits bs) (hane : as ≠ [])
      (hbne : bs ≠ []) : IsDoubleText (as ++ '.' :: bs)
  | small {as bs xs : List Char} (ha : AllDigits as) (hb : AllDigits bs) (hx : AllDigits xs)
      (hane : as ≠ []) (hxne : xs ≠ []) : IsDoubleText (mantissa as bs ++ 'e' :: '-' :: xs)
  | large {as bs xs : List Char} (ha : AllDigits as) (hb : AllDigits bs) (hx : AllDigits xs)
      (hane : as ≠ []) (hxne : xs ≠ []) (hle : bs.length + xs.length ≤ digitsValue xs) :
      IsDoubleText (mantissa as bs ++ 'e' :: '+' :: xs)

/-! ## What the formatter does -/

section Formatter

variable {as bs cs ds : List Char} {e : FieldEdit}

theorem allDigits_digitsOnly (cs : List Char) : AllDigits (digitsOnly cs) :=
  fun _ hc => (List.mem_filter.mp hc).2

/-- The formatter leaves a text of digits as it is. -/
theorem digitsOnly_of_allDigits (h : AllDigits cs) : digitsOnly cs = cs :=
  List.filter_eq_self.mpr h

@[simp] theorem digitsOnly_append (as bs : List Char) :
    digitsOnly (as ++ bs) = digitsOnly as ++ digitsOnly bs := List.filter_append ..

theorem digitsOnly_cons_of_isDigit {c : Char} (h : c.isDigit = true) (cs : List Char) :
    digitsOnly (c :: cs) = c :: digitsOnly cs := List.filter_cons_of_pos h

theorem digitsOnly_cons_of_not {c : Char} (h : c.isDigit = false) (cs : List Char) :
    digitsOnly (c :: cs) = digitsOnly cs :=
  List.filter_cons_of_neg (by rw [h]; exact Bool.false_ne_true)

/-- The character a key inserts is a digit. -/
theorem isDigit_digitChar (d : Fin 10) : (Nat.digitChar d).isDigit = true := by
  rw [Nat.isDigit_digitChar]
  exact decide_eq_true d.isLt

/-- **An edit does to the field what it does to the text intended.** -/
theorem Intends.apply_digitsOnly (h : Intends cs e ds) :
    (e.apply (digitsOnly cs)).map digitsOnly = some (digitsOnly ds) := by
  have hpass (cs : List Char) : digitsOnly (digitsOnly cs) = digitsOnly cs :=
    digitsOnly_of_allDigits (allDigits_digitsOnly cs)
  cases h with
  | insert as bs d =>
    have hd := digitsOnly_cons_of_isDigit (isDigit_digitChar d)
    rw [FieldEdit.apply, digitsOnly_append,
      if_pos (by rw [List.length_append]; exact Nat.le_add_right _ _), List.take_left,
      List.drop_left, Option.map_some, digitsOnly_append, digitsOnly_append, hd, hd, hpass, hpass]
  | @delete as bs c hc =>
    have hlt : (digitsOnly as).length < (digitsOnly as ++ c :: digitsOnly bs).length := by
      rw [List.length_append, List.length_cons]
      omega
    have hdrop : (digitsOnly as ++ c :: digitsOnly bs).drop ((digitsOnly as).length + 1)
        = digitsOnly bs := by
      rw [← List.drop_drop, List.drop_left]
      rfl
    rw [FieldEdit.apply, digitsOnly_append, digitsOnly_cons_of_isDigit hc, if_pos hlt,
      List.take_left, hdrop, Option.map_some, digitsOnly_append, digitsOnly_append, hpass, hpass]

/-- **The field holds the digits of the text intended**, from one edit to the
next. -/
theorem IntendedFrom.typed_eq {edits : List FieldEdit} {text : List Char}
    (h : IntendedFrom cs edits text) :
    typed (digitsOnly cs) edits = some (digitsOnly text) := by
  induction edits generalizing cs with
  | nil =>
    obtain rfl : text = cs := h
    rfl
  | cons e edits ih =>
    obtain ⟨ds, hds, h⟩ := h
    show ((e.apply (digitsOnly cs)).map digitsOnly).bind (fun cs => typed cs edits) = _
    rw [hds.apply_digitsOnly]
    exact ih h

/-- **Once there is an edit, the field holds the digits of the text intended.** -/
theorem Intended.typed_eq {shown text : List Char} {edits : List FieldEdit} (hne : edits ≠ [])
    (h : Intended shown edits text) : typed shown edits = some (digitsOnly text) := by
  cases edits with
  | nil => exact absurd rfl hne
  | cons e edits =>
    obtain ⟨cs, hcs, h⟩ := h
    show ((e.apply shown).map digitsOnly).bind (fun cs => typed cs edits) = _
    rw [hcs]
    exact h.typed_eq

/-! ## The text intended -/

/-- There is a digit in a text before which it has so many. -/
theorem exists_split_digit {i : ℕ} (h : i < (digitsOnly cs).length) :
    ∃ as c bs, cs = as ++ c :: bs ∧ c.isDigit = true ∧ (digitsOnly as).length = i := by
  induction cs generalizing i with
  | nil => exact absurd h (Nat.not_lt_zero i)
  | cons c cs ih =>
    cases hc : c.isDigit with
    | false =>
      rw [digitsOnly_cons_of_not hc] at h
      obtain ⟨as, d, bs, rfl, hd, hi⟩ := ih h
      exact ⟨c :: as, d, bs, rfl, hd, by rw [digitsOnly_cons_of_not hc, hi]⟩
    | true =>
      rw [digitsOnly_cons_of_isDigit hc, List.length_cons] at h
      cases i with
      | zero => exact ⟨[], c, cs, rfl, hc, rfl⟩
      | succ i =>
        obtain ⟨as, d, bs, rfl, hd, hi⟩ := ih (Nat.lt_of_succ_lt_succ h)
        exact ⟨c :: as, d, bs, rfl, hd,
          by rw [digitsOnly_cons_of_isDigit hc, List.length_cons, hi]⟩

/-- There is a place in a text before which it has so many digits: before a digit, or
at the end. -/
theorem exists_split_digits {i : ℕ} (h : i ≤ (digitsOnly cs).length) :
    ∃ as bs, cs = as ++ bs ∧ (digitsOnly as).length = i := by
  rcases h.eq_or_lt with rfl | hlt
  · exact ⟨cs, [], (List.append_nil cs).symm, rfl⟩
  · obtain ⟨as, c, bs, rfl, -, hi⟩ := exists_split_digit hlt
    exact ⟨as, c :: bs, rfl, hi⟩

/-- **An edit that can be made in the field can be made in the text intended.** -/
theorem exists_intends (h : e.apply (digitsOnly cs) = some as) : ∃ ds, Intends cs e ds := by
  cases e with
  | insert d i =>
    obtain ⟨hi, -⟩ := Option.ite_none_right_eq_some.mp h
    obtain ⟨as, bs, rfl, rfl⟩ := exists_split_digits hi
    exact ⟨_, .insert as bs d⟩
  | delete i =>
    obtain ⟨hi, -⟩ := Option.ite_none_right_eq_some.mp h
    obtain ⟨as, c, bs, rfl, hc, rfl⟩ := exists_split_digit hi
    exact ⟨_, .delete as bs hc⟩

/-- **A sequence of edits that can be made in the field** can be made in the text
intended. -/
theorem exists_intendedFrom {edits : List FieldEdit} {field : List Char}
    (h : typed (digitsOnly cs) edits = some field) : ∃ text, IntendedFrom cs edits text := by
  induction edits generalizing cs with
  | nil => exact ⟨cs, rfl⟩
  | cons e edits ih =>
    obtain ⟨fs, hfs, hrest⟩ := Option.bind_eq_some_iff.mp h
    obtain ⟨as, happly, -⟩ := Option.map_eq_some_iff.mp hfs
    obtain ⟨ds, hds⟩ := exists_intends happly
    obtain rfl : digitsOnly ds = fs := Option.some.inj (hds.apply_digitsOnly.symm.trans hfs)
    obtain ⟨text, htext⟩ := ih hrest
    exact ⟨text, ds, hds, htext⟩

/-- **Whatever is typed, something is intended.** -/
theorem exists_intended {shown field : List Char} {edits : List FieldEdit}
    (h : typed shown edits = some field) : ∃ text, Intended shown edits text := by
  cases edits with
  | nil => exact ⟨shown, rfl⟩
  | cons e edits =>
    obtain ⟨fs, hfs, hrest⟩ := Option.bind_eq_some_iff.mp h
    obtain ⟨cs, hcs, rfl⟩ := Option.map_eq_some_iff.mp hfs
    obtain ⟨text, htext⟩ := exists_intendedFrom hrest
    exact ⟨text, cs, hcs, htext⟩

section Characters

variable {P : Char → Prop} {shown text : List Char} {edits : List FieldEdit}

/-- An edit of the text shown puts a digit into it, if anything. -/
theorem FieldEdit.forall_mem_apply (hP : ∀ c, c.isDigit = true → P c) (h : ∀ c ∈ as, P c)
    (he : e.apply as = some bs) : ∀ c ∈ bs, P c := by
  cases e with
  | insert d i =>
    obtain ⟨-, happly⟩ := Option.ite_none_right_eq_some.mp he
    obtain rfl := Option.some.inj happly
    intro c hc
    rcases List.mem_append.mp hc with hc | hc
    · exact h c (List.mem_of_mem_take hc)
    · rcases List.mem_cons.mp hc with rfl | hc
      · exact hP _ (isDigit_digitChar d)
      · exact h c (List.mem_of_mem_drop hc)
  | delete i =>
    obtain ⟨-, happly⟩ := Option.ite_none_right_eq_some.mp he
    obtain rfl := Option.some.inj happly
    intro c hc
    rcases List.mem_append.mp hc with hc | hc
    · exact h c (List.mem_of_mem_take hc)
    · exact h c (List.mem_of_mem_drop hc)

/-- An edit of the text intended puts a digit into it, if anything. -/
theorem Intends.forall_mem (hP : ∀ c, c.isDigit = true → P c) (he : Intends cs e ds)
    (h : ∀ c ∈ cs, P c) : ∀ c ∈ ds, P c := by
  cases he with
  | insert as bs d =>
    obtain ⟨ha, hb⟩ := List.forall_mem_append.mp h
    exact List.forall_mem_append.mpr
      ⟨ha, List.forall_mem_cons.mpr ⟨hP _ (isDigit_digitChar d), hb⟩⟩
  | delete as bs hc =>
    obtain ⟨ha, hb⟩ := List.forall_mem_append.mp h
    exact List.forall_mem_append.mpr ⟨ha, (List.forall_mem_cons.mp hb).2⟩

theorem IntendedFrom.forall_mem (hP : ∀ c, c.isDigit = true → P c)
    (h : IntendedFrom cs edits text) (hcs : ∀ c ∈ cs, P c) : ∀ c ∈ text, P c := by
  induction edits generalizing cs with
  | nil =>
    obtain rfl : text = cs := h
    exact hcs
  | cons e edits ih =>
    obtain ⟨ds, hds, h⟩ := h
    exact ih h (hds.forall_mem hP hcs)

/-- **The text intended has digits in it, and characters of the one shown.** -/
theorem Intended.forall_mem (hP : ∀ c, c.isDigit = true → P c) (h : Intended shown edits text)
    (hshown : ∀ c ∈ shown, P c) : ∀ c ∈ text, P c := by
  cases edits with
  | nil =>
    obtain rfl : text = shown := h
    exact hshown
  | cons e edits =>
    obtain ⟨cs, hcs, h⟩ := h
    exact h.forall_mem hP (e.forall_mem_apply hP hshown hcs)

end Characters

end Formatter

/-! ## What the digits denote -/

section Digits

variable (l : DoubleLiteral)

/-- What is left of a literal are its digits. -/
theorem digitsOnly_text : digitsOnly l.text = l.digits := by
  have hsign {sign : List Char} (h : sign = [] ∨ sign = ['+'] ∨ sign = ['-']) :
      digitsOnly sign = [] := by
    rcases h with rfl | rfl | rfl
    · rfl
    · rfl
    · rfl
  have hexponent : digitsOnly l.exponentText = l.exponentDigits := by
    unfold DoubleLiteral.exponentText DoubleLiteral.exponentDigits
    cases l.exponent with
    | none => rfl
    | some x =>
      show digitsOnly (x.mark :: (x.sign ++ x.digits)) = x.digits
      rw [digitsOnly_cons_of_not (mark_ne x.mark_mem).1.1, digitsOnly_append, hsign x.sign_mem,
        digitsOnly_of_allDigits x.allDigits]
      rfl
  have hfraction : digitsOnly ((l.fraction.map (fun bs => '.' :: bs)).getD [])
      = l.fractionDigits := by
    unfold DoubleLiteral.fractionDigits
    have hdigits := l.allDigits_fraction
    cases hf : l.fraction with
    | none => rfl
    | some bs =>
      rw [hf] at hdigits
      exact (digitsOnly_cons_of_not (by decide) bs).trans (digitsOnly_of_allDigits hdigits)
  unfold DoubleLiteral.text DoubleLiteral.unsigned
  rw [digitsOnly_append, digitsOnly_append, digitsOnly_append, hsign l.sign_mem, hexponent,
    hfraction, digitsOnly_of_allDigits l.allDigits_whole, List.nil_append, ← List.append_assoc]
  rfl

theorem DoubleLiteral.allDigits_digits : AllDigits l.digits := by
  rw [← digitsOnly_text]
  exact allDigits_digitsOnly l.text

theorem DoubleLiteral.digits_ne_nil : l.digits ≠ [] :=
  fun h => l.digits_ne (List.append_eq_nil_iff.mp h).1

/-- What the digits of a literal spell. -/
theorem DoubleLiteral.digitsValue_digits :
    digitsValue l.digits
      = 10 ^ l.exponentDigits.length * digitsValue l.mantissaDigits
        + digitsValue l.exponentDigits :=
  digitsValue_append _ _

end Digits

/-! ## When the digits are the number -/

section Number

variable {l : DoubleLiteral}

/-- Without an exponent there is nothing to shift by, nor to spell. -/
theorem DoubleLiteral.exponent_none (h : l.exponent = none) :
    l.exponentValue = 0 ∧ l.exponentDigits = [] := by
  unfold DoubleLiteral.exponentValue DoubleLiteral.exponentDigits
  rw [h]
  exact ⟨rfl, rfl⟩

/-- The exponent's digits spell less than the power of ten that makes room for
them. -/
theorem DoubleLiteral.digitsValue_exponentDigits_lt (l : DoubleLiteral) :
    digitsValue l.exponentDigits < 10 ^ l.exponentDigits.length := by
  have hdigits := l.allDigits_digits
  exact digitsValue_lt hdigits.right

/-- A number of zeros is zero. -/
theorem DoubleLiteral.value_of_zeros (h : digitsValue l.digits = 0) : l.value = 0 := by
  rw [l.digitsValue_digits, Nat.add_eq_zero_iff, Nat.mul_eq_zero] at h
  have hpow : 10 ^ l.exponentDigits.length ≠ 0 := by positivity
  have hmagnitude : l.magnitude = 0 := by
    rw [DoubleLiteral.magnitude, h.1.resolve_left hpow, Nat.cast_zero, zero_mul]
  unfold DoubleLiteral.value
  rw [hmagnitude, neg_zero, ite_self]

/-- Where the point is not moved behind as many digits as there are, the digits
are four times the number at least, or the number four times the digits. -/
theorem DoubleLiteral.magnitude_far
    (hshift : l.exponentValue - l.fractionDigits.length ≠ l.exponentDigits.length)
    (hpos : digitsValue l.digits ≠ 0) :
    4 * l.magnitude ≤ digitsValue l.digits ∨
      (1 ≤ l.magnitude ∧ 4 * (digitsValue l.digits : ℚ) ≤ l.magnitude) := by
  have hlt := l.digitsValue_exponentDigits_lt
  have hdigits := l.digitsValue_digits
  unfold DoubleLiteral.magnitude
  generalize l.exponentValue - (l.fractionDigits.length : ℤ) = n at hshift ⊢
  generalize digitsValue l.mantissaDigits = m at hdigits ⊢
  generalize digitsValue l.exponentDigits = x at hdigits hlt
  generalize digitsValue l.digits = d at hdigits hpos ⊢
  generalize l.exponentDigits.length = k at hshift hdigits hlt
  have hk : (0 : ℚ) < 10 ^ k := by positivity
  have hd : (d : ℚ) = 10 ^ k * m + x := by exact_mod_cast hdigits
  have hx : (x : ℚ) < 10 ^ k := by exact_mod_cast hlt
  have hm : (0 : ℚ) ≤ m := by positivity
  have hx0 : (0 : ℚ) ≤ x := by positivity
  rcases lt_or_gt_of_ne hshift with hless | hmore
  · -- the point stands further to the front
    left
    have hpow : (10 : ℚ) ^ n * 10 ≤ 10 ^ k := by
      rw [← zpow_add_one₀ (by norm_num), ← zpow_natCast]
      exact zpow_le_zpow_right₀ (by norm_num) (by omega)
    have hprod := mul_le_mul_of_nonneg_left hpow hm
    have hnn : 0 ≤ (m : ℚ) * 10 ^ n := by positivity
    linarith
  · -- the point stands further back
    rcases Nat.eq_zero_or_pos m with rfl | hmpos
    · left
      rw [Nat.cast_zero, zero_mul, mul_zero]
      positivity
    · right
      have hone : (1 : ℚ) ≤ m := by exact_mod_cast hmpos
      have hpow : (10 : ℚ) ^ k * 10 ≤ 10 ^ n := by
        rw [← zpow_natCast, ← zpow_add_one₀ (by norm_num)]
        exact zpow_le_zpow_right₀ (by norm_num) (by omega)
      have hprod := mul_le_mul_of_nonneg_left hpow hm
      have hroom := mul_le_mul_of_nonneg_left hone hk.le
      have hd1 : (1 : ℚ) ≤ d := by exact_mod_cast Nat.one_le_iff_ne_zero.mpr hpos
      exact ⟨by linarith, by linarith⟩

/-- **When the digits of a literal are its number**, as doubles. -/
theorem DoubleLiteral.round_digits_iff (l : DoubleLiteral) :
    binary64.round (digitsValue l.digits) = binary64.round l.value ↔ l.IsItsDigits := by
  have hfar {x y : ℚ} (hxy : 4 * x ≤ y) (hy : 1 ≤ y) : binary64.round x ≠ binary64.round y :=
    (FloatFormat.round_lt_round (F := binary64) (by decide) (by decide) hxy hy).ne
  have hzeros := digitsValue_eq_zero_iff l.allDigits_digits
  by_cases hpos : digitsValue l.digits = 0
  · rw [l.value_of_zeros hpos, hpos, Nat.cast_zero]
    exact iff_of_true rfl (Or.inr (Or.inl (hzeros.mp hpos)))
  have hone : (1 : ℚ) ≤ digitsValue l.digits := by
    exact_mod_cast Nat.one_le_iff_ne_zero.mpr hpos
  have hnot (hwhole : ¬ l.IsWhole) (hlost : ¬ l.ExponentLost) : ¬ l.IsItsDigits := by
    rintro (h | h | h)
    · exact hwhole h
    · exact hpos (hzeros.mpr h)
    · exact hlost h
  have hnn : 0 ≤ l.magnitude := by
    unfold DoubleLiteral.magnitude
    positivity
  by_cases hsign : l.sign = ['-']
  · -- a number below zero is not the number of any digits
    rw [DoubleLiteral.value, if_pos hsign]
    exact iff_of_false (hfar (by linarith) hone).symm
      (hnot (fun h => h.1 hsign) (fun h => h.1 hsign))
  rw [DoubleLiteral.value, if_neg hsign]
  by_cases hshift : l.exponentValue - l.fractionDigits.length = l.exponentDigits.length
  · have hmagnitude : l.magnitude
        = digitsValue l.mantissaDigits * 10 ^ l.exponentDigits.length := by
      rw [DoubleLiteral.magnitude, hshift, zpow_natCast]
    by_cases hexponent : l.exponent = none
    · obtain ⟨hvalue, hdigits⟩ := DoubleLiteral.exponent_none hexponent
      have hfraction : l.fractionDigits = [] := by
        rw [hvalue, hdigits, List.length_nil] at hshift
        exact List.eq_nil_of_length_eq_zero (by omega)
      have hall : l.digits = l.mantissaDigits := by
        rw [DoubleLiteral.digits, hdigits, List.append_nil]
      rw [hmagnitude, hall, hdigits, List.length_nil, pow_zero, mul_one]
      exact iff_of_true rfl (Or.inl ⟨hsign, hfraction, hexponent⟩)
    · rw [hmagnitude]
      constructor
      · exact fun h => Or.inr (Or.inr
          ⟨hsign, Option.isSome_iff_ne_none.mpr hexponent, by omega, h⟩)
      · rintro (h | h | h)
        · exact absurd h.2.2 hexponent
        · exact absurd (hzeros.mpr h) hpos
        · exact h.2.2.2
  · refine iff_of_false ?_ (hnot (fun h => ?_) (fun h => ?_))
    · rcases DoubleLiteral.magnitude_far hshift hpos with h | ⟨hy, h⟩
      · exact (hfar h hone).symm
      · exact hfar h hy
    · obtain ⟨hvalue, hdigits⟩ := DoubleLiteral.exponent_none h.2.2
      rw [hvalue, hdigits, h.2.1] at hshift
      exact hshift rfl
    · have hvalue := h.2.2.1
      omega

end Number

/-! ## When the price typed is the price put -/

section Typing

variable {shown : List Char} {edits : List FieldEdit}

/-- The price put for digits is the double of their number. -/
theorem pricePut_of_allDigits {field : List Char} (h : AllDigits field) (hne : field ≠ []) :
    pricePut field = some (.double (binary64.round (digitsValue field))) := by
  unfold pricePut
  rw [if_neg hne, doubleTryParse_digits h hne]
  rfl

/-- **The price typed is the price put exactly where the literals intended are the
numbers of their digits.** -/
theorem typedPricePut_iff (hshown : IsLiteral shown) :
    TypedPricePut shown edits ↔ MakesWhole shown edits := by
  constructor
  · intro h hne l hl
    have hput := h _ _ _ _ (hl.typed_eq hne) hl l.doubleTryParse_text
      (by rw [digitsOnly_text]; exact pricePut_of_allDigits l.allDigits_digits l.digits_ne_nil)
    exact l.round_digits_iff.mp hput
  · intro h field text q x hfield htext hq hx
    by_cases hne : edits = []
    · -- nothing is formatted: the text shown is read as it is
      subst hne
      obtain rfl : text = shown := htext
      obtain rfl := Option.some.inj hfield
      unfold pricePut at hx
      split at hx
      · exact absurd hx.symm (Option.some_ne_none x)
      · rw [hq] at hx
        obtain rfl := Option.some.inj hx
        rfl
    · obtain ⟨l, rfl, rfl⟩ := exists_doubleLiteral
        (fun c hc => isWhitespace_eq_false
          (htext.forall_mem (fun _ hd => Or.inl hd) hshown c hc)) hq
      have hdigits := htext.typed_eq hne
      rw [hfield, digitsOnly_text] at hdigits
      obtain rfl := Option.some.inj hdigits
      rw [pricePut_of_allDigits l.allDigits_digits l.digits_ne_nil] at hx
      obtain rfl := Option.some.inj hx
      exact l.round_digits_iff.mpr (h hne l htext)

end Typing

/-! ## The texts of doubles -/

section Texts

variable {shown as bs xs : List Char}

theorem allDigits_five : AllDigits ['5'] := allDigits_singleton rfl

/-- A five typed at the end of the text shown. -/
theorem intended_five (shown : List Char) :
    Intended shown [.insert 5 shown.length] (shown ++ ['5']) := by
  refine ⟨shown ++ ['5'], ?_, rfl⟩
  rw [FieldEdit.apply, if_pos (le_refl _), List.take_length, List.drop_length]
  rfl

/-- A literal with a five in it is not its digits, if it has digits after a point
or an exponent, and the exponent is not the number of digits after the point and
of its own. -/
theorem not_isItsDigits {l : DoubleLiteral} (hfive : '5' ∈ l.digits)
    (hwhole : l.fractionDigits ≠ [] ∨ l.exponent ≠ none)
    (hlost : l.exponentValue ≠ l.fractionDigits.length + l.exponentDigits.length) :
    ¬ l.IsItsDigits := by
  rintro (h | h | h)
  · rcases hwhole with hfraction | hexponent
    · exact hfraction h.2.1
    · exact hexponent h.2.2
  · exact absurd (h '5' hfive) (by decide)
  · exact hlost h.2.2.1

/-- A literal with a point and a five after it is not the number of its digits. -/
theorem exists_literal_point (ha : AllDigits as) (hb : AllDigits bs) (hne : as ≠ [])
    (hfive : '5' ∈ bs) :
    ∃ l : DoubleLiteral, l.text = as ++ '.' :: bs ∧ ¬ l.IsItsDigits := by
  refine ⟨⟨[], as, some bs, none, Or.inl rfl, ha, hb,
    fun h => hne (List.append_eq_nil_iff.mp h).1⟩, ?_, not_isItsDigits ?_ (Or.inl ?_) ?_⟩
  · show as ++ ('.' :: bs ++ []) = _
    rw [List.append_nil]
  · exact List.mem_append_left _ (List.mem_append_right _ hfive)
  · exact List.ne_nil_of_mem hfive
  · have hlen : 0 < bs.length := List.length_pos_of_mem hfive
    show (0 : ℤ) ≠ bs.length + 0
    omega

/-- A literal with a five in its exponent is not the number of its digits, if the
exponent moves the point elsewhere than taking it out does. -/
theorem exists_literal_exponent (ha : AllDigits as) (hb : AllDigits bs) (hne : as ≠ [])
    {x : LiteralExponent} (hfive : '5' ∈ x.digits)
    (hlost : x.value ≠ bs.length + x.digits.length) :
    ∃ l : DoubleLiteral, l.text = mantissa as bs ++ x.text ∧ ¬ l.IsItsDigits := by
  have hne' (cs : List Char) : as ++ cs ≠ [] := fun h => hne (List.append_eq_nil_iff.mp h).1
  have hmem : '5' ∈ as ++ bs ++ x.digits := List.mem_append_right _ hfive
  have hsome : some x ≠ none := Option.some_ne_none x
  by_cases hbs : bs = []
  · subst hbs
    refine ⟨⟨[], as, none, some x, Or.inl rfl, ha, allDigits_nil, hne' _⟩, ?_,
      not_isItsDigits hmem (Or.inr hsome) hlost⟩
    rw [mantissa, if_pos rfl]
    rfl
  · refine ⟨⟨[], as, some bs, some x, Or.inl rfl, ha, hb, hne' _⟩, ?_,
      not_isItsDigits hmem (Or.inr hsome) hlost⟩
    rw [mantissa, if_neg hbs, List.append_assoc]
    rfl

/-- **A five typed after the text of a double** makes a literal that is not its
digits. -/
theorem IsDoubleText.not_makesWhole (h : IsDoubleText shown) :
    ¬ MakesWhole shown [.insert 5 shown.length] := by
  have hfive (ds : List Char) : '5' ∈ ds ++ ['5'] :=
    List.mem_append_right _ (List.mem_singleton_self _)
  have hne (ds : List Char) : ds ++ ['5'] ≠ [] := List.ne_nil_of_mem (hfive ds)
  suffices hex : ∃ l : DoubleLiteral, l.text = shown ++ ['5'] ∧ ¬ l.IsItsDigits by
    obtain ⟨l, htext, hnot⟩ := hex
    exact fun h => hnot (h (List.cons_ne_nil _ _) l (by rw [htext]; exact intended_five shown))
  cases h with
  | @plain as bs ha hb hane hbne =>
    rw [List.append_assoc]
    exact exists_literal_point ha (hb.append allDigits_five) hane (hfive bs)
  | @small as bs xs ha hb hx hane hxne =>
    let x : LiteralExponent := ⟨'e', ['-'], xs ++ ['5'], Or.inl rfl, Or.inr (Or.inr rfl),
      hx.append allDigits_five, hne xs⟩
    have hlost : x.value ≠ bs.length + x.digits.length := by
      show -(digitsValue (xs ++ ['5']) : ℤ) ≠ bs.length + (xs ++ ['5']).length
      rw [List.length_append, List.length_singleton]
      omega
    rw [List.append_assoc]
    exact exists_literal_exponent ha hb hane (x := x) (hfive xs) hlost
  | @large as bs xs ha hb hx hane hxne hle =>
    let x : LiteralExponent := ⟨'e', ['+'], xs ++ ['5'], Or.inl rfl, Or.inr (Or.inl rfl),
      hx.append allDigits_five, hne xs⟩
    have hlost : x.value ≠ bs.length + x.digits.length := by
      show (digitsValue (xs ++ ['5']) : ℤ) ≠ bs.length + (xs ++ ['5']).length
      rw [digitsValue_append_five, List.length_append, List.length_singleton]
      omega
    rw [List.append_assoc]
    exact exists_literal_exponent ha hb hane (x := x) (hfive xs) hlost

/-- The text of a double has the characters of a literal. -/
theorem IsDoubleText.isLiteral (h : IsDoubleText shown) : IsLiteral shown := by
  have hmantissa {as bs : List Char} (ha : AllDigits as) (hb : AllDigits bs) :
      IsLiteral (mantissa as bs) := by
    unfold mantissa
    split
    · exact ha.isLiteral
    · exact ha.isLiteral.append (hb.isLiteral.cons (by decide))
  cases h with
  | plain ha hb hane hbne => exact ha.isLiteral.append (hb.isLiteral.cons (by decide))
  | small ha hb hx hane hxne =>
    exact (hmantissa ha hb).append ((hx.isLiteral.cons (by decide)).cons (by decide))
  | large ha hb hx hane hxne hle =>
    exact (hmantissa ha hb).append ((hx.isLiteral.cons (by decide)).cons (by decide))

/-- A literal of digits only is whole. -/
theorem DoubleLiteral.isWhole_of_allDigits {l : DoubleLiteral} (h : AllDigits l.text) :
    l.IsWhole := by
  have hunsigned : AllDigits l.unsigned := h.right
  have hrest := hunsigned.right
  refine ⟨fun hsign => ?_, ?_, ?_⟩
  · have hminus : '-' ∈ l.text := by
      unfold DoubleLiteral.text
      rw [hsign]
      exact List.mem_append_left _ (List.mem_singleton_self _)
    exact absurd (h '-' hminus) (by decide)
  · unfold DoubleLiteral.fractionDigits
    cases hf : l.fraction with
    | none => rfl
    | some bs =>
      rw [hf] at hrest
      exact absurd (hrest '.' (List.mem_cons_self ..)) (by decide)
  · cases hx : l.exponent with
    | none => rfl
    | some x =>
      have hexponent : AllDigits l.exponentText := hrest.right
      unfold DoubleLiteral.exponentText at hexponent
      rw [hx] at hexponent
      have hmark := hexponent x.mark (List.mem_cons_self ..)
      rw [(mark_ne x.mark_mem).1.1] at hmark
      exact absurd hmark Bool.false_ne_true

/-- **Digits stay digits**, whatever is typed. -/
theorem makesWhole_of_allDigits (h : AllDigits shown) (edits : List FieldEdit) :
    MakesWhole shown edits :=
  fun _ l hl => Or.inl (l.isWhole_of_allDigits (hl.forall_mem (fun _ hd => hd) h))

end Texts

/-! ## The prices that are safe -/

section Product

/-- An integer that is not negative is shown as digits. -/
theorem allDigits_priceText_int (showDouble : ℚ → String) {n : Int64} (h : 0 ≤ n.toInt) :
    AllDigits (priceText showDouble (.int n)) := by
  show AllDigits (toString n.toInt).toList
  rw [Int.toString_eq_repr, Int.repr_eq_if, if_pos h, Nat.toList_repr]
  exact allDigits_toDigits _

/-- **When the price typed is the price put.** For every product whose price is
not negative, and whatever the text of its price is: every sequence of edits
that can be made in the field is meant to make some text of the one shown, and
puts the double that this text is read as exactly when the literals it can be
meant to make are the numbers of their digits. The product is safe from every
sequence exactly when its price is an integer, which only the 0 of a price that
could not be read is. -/
theorem typed_price_iff (showDouble : ℚ → String)
    (hshow : ∀ q, 0 ≤ q → IsDoubleText (showDouble q).toList) (price : Number)
    (hprice : 0 ≤ price.toRat) :
    (∀ edits field, typed (priceText showDouble price) edits = some field →
        ∃ text, Intended (priceText showDouble price) edits text)
      ∧ (∀ edits, TypedPricePut (priceText showDouble price) edits
        ↔ MakesWhole (priceText showDouble price) edits)
      ∧ ((∀ edits, TypedPricePut (priceText showDouble price) edits) ↔ ∃ n, price = .int n) := by
  have hdigits {n : Int64} (hn : (0 : ℚ) ≤ n.toInt) :
      AllDigits (priceText showDouble (.int n)) :=
    allDigits_priceText_int showDouble (by exact_mod_cast hn)
  have hliteral : IsLiteral (priceText showDouble price) := by
    cases price with
    | int n => exact (hdigits hprice).isLiteral
    | double q => exact (hshow q hprice).isLiteral
  refine ⟨fun edits field h => exists_intended h, fun edits => typedPricePut_iff hliteral,
    fun h => ?_, ?_⟩
  · cases price with
    | int n => exact ⟨n, rfl⟩
    | double q =>
      exact absurd ((typedPricePut_iff hliteral).mp (h _)) (hshow q hprice).not_makesWhole
  · rintro ⟨n, rfl⟩ edits
    exact (typedPricePut_iff hliteral).mpr (makesWhole_of_allDigits (hdigits hprice) edits)

end Product

/-- The text of a double that is a whole number, for worked examples. -/
def showWhole (q : ℚ) : String := String.ofList (Nat.toDigits 10 q.floor.toNat ++ ['.', '0'])

/-- The text of a whole number with a point is that of a double. -/
theorem isDoubleText_showWhole (q : ℚ) : IsDoubleText (showWhole q).toList := by
  rw [showWhole, String.toList_ofList]
  exact .plain (allDigits_toDigits _) (allDigits_singleton rfl) Nat.toDigits_ne_nil (by decide)

/-- The law at work: a price of 10, shown as `10.0`. -/
theorem typed_price_iff_ten :
    (∀ edits field, typed (priceText showWhole (.double 10)) edits = some field →
        ∃ text, Intended (priceText showWhole (.double 10)) edits text)
      ∧ (∀ edits, TypedPricePut (priceText showWhole (.double 10)) edits
        ↔ MakesWhole (priceText showWhole (.double 10)) edits)
      ∧ ((∀ edits, TypedPricePut (priceText showWhole (.double 10)) edits)
        ↔ ∃ n, Number.double 10 = .int n) :=
  typed_price_iff showWhole (fun q _ => isDoubleText_showWhole q) (.double 10) (by
    show (0 : ℚ) ≤ 10
    norm_num)

/-- **A price a hundred times too high**: a five typed after `10.0`. -/
theorem point_taken_out :
    typed ['1', '0', '.', '0'] [.insert 5 4] = some ['1', '0', '0', '5']
      ∧ ¬ TypedPricePut ['1', '0', '.', '0'] [.insert 5 4] := by
  refine ⟨by decide, fun h => ?_⟩
  have hput := h ['1', '0', '0', '5'] ['1', '0', '.', '0', '5'] (201 / 20) (.double 1005)
    (by decide) ⟨['1', '0', '.', '0', '5'], by decide, rfl⟩ (by decide +kernel) (by decide +kernel)
  exact absurd hput (by decide +kernel)
