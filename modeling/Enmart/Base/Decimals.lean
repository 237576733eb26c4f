import Enmart.Base.Dart

/-!
# Decimal literals

What `doubleTryParse` reads. A row of digits is read as the number they are the
digits of (`digitsValue`); a point divides it by a power of ten, an exponent
shifts it by one. A text without white space is read exactly if it is made of
the parts of a literal, and then as the number these denote
(`DoubleLiteral.doubleTryParse_text`, `exists_doubleLiteral`).
-/

/-- The text is a row of digits. -/
def AllDigits (cs : List Char) : Prop := ∀ c ∈ cs, c.isDigit = true

/-- The number a row of digits spells. -/
def digitsValue (ds : List Char) : ℕ := Nat.ofDigitChars 10 ds 0

section Digits

variable {as bs ds : List Char}

theorem allDigits_nil : AllDigits [] := fun _ hc => absurd hc List.not_mem_nil

theorem allDigits_singleton {c : Char} (h : c.isDigit = true) : AllDigits [c] :=
  List.forall_mem_singleton.mpr h

/-- The digits of a number. -/
theorem allDigits_toDigits (n : ℕ) : AllDigits (Nat.toDigits 10 n) :=
  fun _ hc => Nat.isDigit_of_mem_toDigits (by decide) (by decide) hc

theorem AllDigits.append (ha : AllDigits as) (hb : AllDigits bs) : AllDigits (as ++ bs) :=
  List.forall_mem_append.mpr ⟨ha, hb⟩

theorem AllDigits.left (h : AllDigits (as ++ bs)) : AllDigits as :=
  (List.forall_mem_append.mp h).1

theorem AllDigits.right (h : AllDigits (as ++ bs)) : AllDigits bs :=
  (List.forall_mem_append.mp h).2

/-- The digits of a number spell it. -/
theorem digitsValue_toDigits (n : ℕ) : digitsValue (Nat.toDigits 10 n) = n :=
  Nat.ofDigitChars_ten_toDigits

/-- What comes first counts for as many powers of ten as there are digits after
it. -/
theorem digitsValue_append (as bs : List Char) :
    digitsValue (as ++ bs) = 10 ^ bs.length * digitsValue as + digitsValue bs := by
  show Nat.ofDigitChars 10 (as ++ bs) 0 = _
  rw [Nat.ofDigitChars_append, Nat.ofDigitChars_eq_ofDigitChars_zero]
  rfl

/-- The number is less than a power of ten. -/
theorem digitsValue_lt (h : AllDigits ds) : digitsValue ds < 10 ^ ds.length := by
  induction ds with
  | nil => decide
  | cons d ds ih =>
    have hd := isDigit_bounds (h d (List.mem_cons_self ..))
    have htail := ih (fun c hc => h c (List.mem_cons_of_mem d hc))
    have hone : digitsValue [d] ≤ 9 := by
      have hzero : '0'.toNat = 48 := rfl
      show Nat.ofDigitChars 10 [d] 0 ≤ 9
      rw [Nat.ofDigitChars_cons, Nat.ofDigitChars_nil, hzero]
      omega
    calc digitsValue (d :: ds) = 10 ^ ds.length * digitsValue [d] + digitsValue ds :=
          digitsValue_append [d] ds
      _ < 10 ^ ds.length * 9 + 10 ^ ds.length :=
          add_lt_add_of_le_of_lt (Nat.mul_le_mul_left _ hone) htail
      _ = 10 ^ (ds.length + 1) := by
          rw [pow_succ]
          ring

/-- Zeros spell zero, and nothing else does. -/
theorem digitsValue_eq_zero_iff (h : AllDigits ds) :
    digitsValue ds = 0 ↔ ∀ c ∈ ds, c = '0' := by
  induction ds with
  | nil => exact ⟨fun _ c hc => absurd hc List.not_mem_nil, fun _ => rfl⟩
  | cons d ds ih =>
    have hd := isDigit_bounds (h d (List.mem_cons_self ..))
    have htail := ih (fun c hc => h c (List.mem_cons_of_mem d hc))
    have hpow : 0 < 10 ^ ds.length := by positivity
    have hone : digitsValue [d] = 0 ↔ d = '0' := by
      constructor
      · intro hzero
        have hnat : d.toNat - 48 = 0 := by
          rw [← hzero]
          show d.toNat - 48 = Nat.ofDigitChars 10 [d] 0
          rw [Nat.ofDigitChars_cons, Nat.ofDigitChars_nil]
          show d.toNat - 48 = 10 * 0 + (d.toNat - 48)
          omega
        exact Char.toNat_inj.mp (show d.toNat = 48 by omega)
      · rintro rfl
        rfl
    rw [show d :: ds = [d] ++ ds from rfl, digitsValue_append, Nat.add_eq_zero_iff,
      Nat.mul_eq_zero, htail, hone, List.forall_mem_append, List.forall_mem_singleton]
    simp only [hpow.ne', false_or]

/-- A five after the digits of a number gives ten times the number and five. -/
theorem digitsValue_append_five (ds : List Char) :
    digitsValue (ds ++ ['5']) = 10 * digitsValue ds + 5 := by
  rw [digitsValue_append]
  rfl

end Digits

/-! ## What is read -/

section Reading

variable {as bs t : List Char}

/-- What a text begins with is its first character. -/
theorem forall_head?_cons {P : Char → Prop} {c : Char} (h : P c) (t : List Char) :
    ∀ d ∈ (c :: t).head?, P d := by
  intro d hd
  obtain rfl := Option.some.inj hd
  exact h

/-- Digits, up to what is none, are what is taken of a text. -/
theorem AllDigits.takeWhile (h : AllDigits as) (ht : ∀ c ∈ t.head?, c.isDigit = false) :
    (as ++ t).takeWhile Char.isDigit = as ∧ (as ++ t).dropWhile Char.isDigit = t := by
  have hstop : t.takeWhile Char.isDigit = [] ∧ t.dropWhile Char.isDigit = t := by
    cases t with
    | nil => exact ⟨rfl, rfl⟩
    | cons c t =>
      have hc : ¬ c.isDigit = true := by
        rw [ht c rfl]
        exact Bool.false_ne_true
      exact ⟨List.takeWhile_cons_of_neg hc, List.dropWhile_cons_of_neg hc⟩
  rw [List.takeWhile_append_of_pos h, List.dropWhile_append_of_pos h, hstop.1, hstop.2,
    List.append_nil]
  exact ⟨rfl, rfl⟩

/-- Digits, a point and digits are read as a number with a fraction. -/
theorem parseUnsignedDouble_point (ha : AllDigits as) (hb : AllDigits bs)
    (ht : ∀ c ∈ t.head?, c.isDigit = false) :
    parseUnsignedDouble (as ++ '.' :: (bs ++ t)) = decimal as bs t := by
  have hA := ha.takeWhile (t := '.' :: (bs ++ t)) (forall_head?_cons (by decide) _)
  have hB := hb.takeWhile ht
  unfold parseUnsignedDouble
  rw [hA.1, hA.2]
  show decimal as ((bs ++ t).takeWhile Char.isDigit) ((bs ++ t).dropWhile Char.isDigit) = _
  rw [hB.1, hB.2]

/-- Digits without a point are read as a number without a fraction. -/
theorem parseUnsignedDouble_digits (ha : AllDigits as)
    (ht : ∀ c ∈ t.head?, c.isDigit = false ∧ c ≠ '.') :
    parseUnsignedDouble (as ++ t) = decimal as [] t := by
  have hA := ha.takeWhile (t := t) (fun c hc => (ht c hc).1)
  unfold parseUnsignedDouble
  rw [hA.1, hA.2]
  split
  · next ds => exact absurd rfl (ht '.' rfl).2
  · rfl

/-- The number digits and a fraction denote, shifted by an exponent. -/
theorem decimal_eq (ha : AllDigits as) (hb : AllDigits bs) (hne : as ++ bs ≠ []) {z : ℤ}
    (ht : parseExponent t = some z) :
    decimal as bs t = some ((digitsValue (as ++ bs) : ℚ) * 10 ^ (z - bs.length)) := by
  unfold decimal
  rw [parseRadix_of_forall hne (ha.append hb), ht]
  rfl

/-- A literal that begins with no sign and has no white space in it. -/
theorem doubleTryParse_ofList {cs : List Char} (hspace : ∀ c ∈ cs, isWhitespace c = false)
    (hsign : ∀ c ∈ cs.head?, c ≠ '-' ∧ c ≠ '+') :
    doubleTryParse (String.ofList cs) = parseUnsignedDouble cs := by
  unfold doubleTryParse
  rw [String.toList_ofList, trimWhitespace_of_forall hspace]
  split
  · next ds => exact absurd rfl (hsign '-' rfl).1
  · next ds => exact absurd rfl (hsign '+' rfl).2
  · rfl

end Reading

/-! ## The characters of literals -/

section Characters

variable {as bs : List Char}

/-- No character of a literal is white space. -/
theorem isWhitespace_eq_false {c : Char} (h : c.isDigit = true ∨ c ∈ ['.', 'e', 'E', '+', '-']) :
    isWhitespace c = false := by
  rcases h with h | h
  · exact isWhitespace_of_isDigit h
  · simp only [List.mem_cons, List.not_mem_nil, or_false] at h
    rcases h with rfl | rfl | rfl | rfl | rfl
    · decide
    · decide
    · decide
    · decide
    · decide

/-- A digit is no sign. -/
theorem ne_sign_of_isDigit {c : Char} (h : c.isDigit = true) : c ≠ '-' ∧ c ≠ '+' := by
  constructor
  · rintro rfl
    exact absurd h (by decide)
  · rintro rfl
    exact absurd h (by decide)

/-- A literal that begins with digits begins with no sign. -/
theorem head_ne_sign {t : List Char} (ha : AllDigits as)
    (ht : ∀ c ∈ t.head?, c ≠ '-' ∧ c ≠ '+') :
    ∀ c ∈ (as ++ t).head?, c ≠ '-' ∧ c ≠ '+' := by
  intro c hc
  cases as with
  | nil => exact ht c hc
  | cons a as =>
    obtain rfl := Option.some.inj hc
    exact ne_sign_of_isDigit (ha a (List.mem_cons_self ..))

/-- The text has digits and the other characters of a literal in it, no more. -/
def IsLiteral (cs : List Char) : Prop :=
  ∀ c ∈ cs, c.isDigit = true ∨ c ∈ ['.', 'e', 'E', '+', '-']

theorem AllDigits.isLiteral (h : AllDigits as) : IsLiteral as := fun c hc => Or.inl (h c hc)

theorem IsLiteral.append (ha : IsLiteral as) (hb : IsLiteral bs) : IsLiteral (as ++ bs) :=
  List.forall_mem_append.mpr ⟨ha, hb⟩

theorem IsLiteral.cons {c : Char} (hc : c ∈ ['.', 'e', 'E', '+', '-']) (h : IsLiteral as) :
    IsLiteral (c :: as) :=
  List.forall_mem_cons.mpr ⟨Or.inr hc, h⟩

end Characters

/-! ## The grammar of literals -/

/-- **The exponent of a literal**: its mark, a sign that may be missing, and
digits. -/
structure LiteralExponent where
  mark : Char
  sign : List Char
  digits : List Char
  mark_mem : mark = 'e' ∨ mark = 'E'
  sign_mem : sign = [] ∨ sign = ['+'] ∨ sign = ['-']
  allDigits : AllDigits digits
  digits_ne : digits ≠ []

namespace LiteralExponent

def text (x : LiteralExponent) : List Char := x.mark :: (x.sign ++ x.digits)

def value (x : LiteralExponent) : ℤ :=
  if x.sign = ['-'] then -(digitsValue x.digits : ℤ) else digitsValue x.digits

end LiteralExponent

/-- **A literal of a double**, in its parts: a sign that may be missing, digits, a
point with digits after it that may be missing, and an exponent that may be. -/
structure DoubleLiteral where
  sign : List Char
  whole : List Char
  fraction : Option (List Char)
  exponent : Option LiteralExponent
  sign_mem : sign = [] ∨ sign = ['+'] ∨ sign = ['-']
  allDigits_whole : AllDigits whole
  allDigits_fraction : AllDigits (fraction.getD [])
  /-- There is a digit before the point or after it. -/
  digits_ne : whole ++ fraction.getD [] ≠ []

namespace DoubleLiteral

variable (l : DoubleLiteral)

/-- The digits after the point. -/
def fractionDigits : List Char := l.fraction.getD []

/-- The digits before the exponent. -/
def mantissaDigits : List Char := l.whole ++ l.fractionDigits

/-- The text of the exponent. -/
def exponentText : List Char := (l.exponent.map LiteralExponent.text).getD []

/-- The power of ten the digits are shifted by. -/
def exponentValue : ℤ := (l.exponent.map LiteralExponent.value).getD 0

/-- The literal without its sign. -/
def unsigned : List Char :=
  l.whole ++ ((l.fraction.map (fun bs => '.' :: bs)).getD [] ++ l.exponentText)

/-- **The text of a literal.** -/
def text : List Char := l.sign ++ l.unsigned

/-- The number denoted, but for the sign. -/
def magnitude : ℚ :=
  (digitsValue l.mantissaDigits : ℚ) * 10 ^ (l.exponentValue - l.fractionDigits.length)

/-- **The number a literal denotes.** -/
def value : ℚ := if l.sign = ['-'] then -l.magnitude else l.magnitude

end DoubleLiteral

section Grammar

variable {cs ds : List Char} {q : ℚ}

/-- A character whose value is below ten is a digit. -/
theorem isDigit_of_digitValue_lt {c : Char} (h : digitValue c < 10) : c.isDigit = true := by
  by_contra hc
  rw [digitValue, if_neg hc] at h
  have hz {a : Char} (ha : a ≤ c) : a.toNat ≤ c.toNat := UInt32.le_iff_toNat_le.mp ha
  split at h
  · next hlower =>
    have hle : 97 ≤ c.toNat := hz hlower.1
    omega
  · split at h
    · next hupper =>
      have hle : 65 ≤ c.toNat := hz hupper.1
      omega
    · omega

/-- What is read as a row of digits is one. -/
theorem allDigits_of_parseRadix {n : ℕ} (h : parseRadix 10 ds = some n) :
    AllDigits ds ∧ ds ≠ [] ∧ n = digitsValue ds := by
  have hcond : ds ≠ [] ∧ ds.all (fun c => digitValue c < 10) = true := by
    by_contra hc
    rw [parseRadix, if_neg hc] at h
    exact absurd h.symm (Option.some_ne_none n)
  have hdigits : AllDigits ds := fun c hc =>
    isDigit_of_digitValue_lt (of_decide_eq_true (List.all_eq_true.mp hcond.2 c hc))
  rw [parseRadix_of_forall hcond.1 hdigits] at h
  exact ⟨hdigits, hcond.1, (Option.some.inj h).symm⟩

/-- An exponent is read as its number. -/
theorem LiteralExponent.parseExponent_text (x : LiteralExponent) :
    parseExponent x.text = some x.value := by
  obtain ⟨mark, sign, digits, hmark, hsign, hdigits, hne⟩ := x
  have hread := parseRadix_of_forall hne hdigits
  rcases hsign with rfl | rfl | rfl
  · show parseExponent (mark :: digits) = _
    rw [parseExponent, if_pos hmark, hread]
    · rfl
    · rintro ds rfl
      exact absurd (hdigits '-' (List.mem_cons_self ..)) (by decide)
    · rintro ds rfl
      exact absurd (hdigits '+' (List.mem_cons_self ..)) (by decide)
  · show parseExponent (mark :: '+' :: digits) = _
    rw [parseExponent, if_pos hmark]
    show (parseRadix 10 digits).map (fun n : ℕ => (n : ℤ)) = _
    rw [hread]
    rfl
  · show parseExponent (mark :: '-' :: digits) = _
    rw [parseExponent, if_pos hmark]
    show (parseRadix 10 digits).map (fun n : ℕ => -(n : ℤ)) = _
    rw [hread]
    rfl

/-- **What is read as an exponent is none or one.** -/
theorem exists_literalExponent {z : ℤ} (h : parseExponent cs = some z) :
    ∃ x : Option LiteralExponent, (x.map LiteralExponent.text).getD [] = cs
      ∧ (x.map LiteralExponent.value).getD 0 = z := by
  unfold parseExponent at h
  split at h
  · exact ⟨none, rfl, Option.some.inj h⟩
  · next mark cs =>
    split at h
    · next hmark =>
      split at h
      · obtain ⟨n, hn, rfl⟩ := Option.map_eq_some_iff.mp h
        obtain ⟨hdigits, hne, rfl⟩ := allDigits_of_parseRadix hn
        exact ⟨some ⟨mark, ['-'], _, hmark, Or.inr (Or.inr rfl), hdigits, hne⟩, rfl, rfl⟩
      · obtain ⟨n, hn, rfl⟩ := Option.map_eq_some_iff.mp h
        obtain ⟨hdigits, hne, rfl⟩ := allDigits_of_parseRadix hn
        exact ⟨some ⟨mark, ['+'], _, hmark, Or.inr (Or.inl rfl), hdigits, hne⟩, rfl, rfl⟩
      · obtain ⟨n, hn, rfl⟩ := Option.map_eq_some_iff.mp h
        obtain ⟨hdigits, hne, rfl⟩ := allDigits_of_parseRadix hn
        exact ⟨some ⟨mark, [], _, hmark, Or.inl rfl, hdigits, hne⟩, rfl, rfl⟩
    · exact absurd h.symm (Option.some_ne_none z)

/-- An exponent begins with its mark. -/
theorem DoubleLiteral.head_exponentText (l : DoubleLiteral) :
    ∀ c ∈ l.exponentText.head?, c = 'e' ∨ c = 'E' := by
  intro c hc
  unfold DoubleLiteral.exponentText at hc
  cases hx : l.exponent with
  | none =>
    rw [hx] at hc
    exact absurd hc (Option.not_mem_none c)
  | some x =>
    rw [hx] at hc
    obtain rfl : x.mark = c := Option.some.inj hc
    exact x.mark_mem

/-- A mark is neither a digit, a point nor a sign. -/
theorem mark_ne {c : Char} (h : c = 'e' ∨ c = 'E') :
    (c.isDigit = false ∧ c ≠ '.') ∧ c ≠ '-' ∧ c ≠ '+' := by
  rcases h with rfl | rfl
  · decide
  · decide

/-- **A literal without its sign is read as its magnitude.** -/
theorem DoubleLiteral.parseUnsignedDouble_unsigned (l : DoubleLiteral) :
    parseUnsignedDouble l.unsigned = some l.magnitude := by
  have hexponent : parseExponent l.exponentText = some l.exponentValue := by
    unfold DoubleLiteral.exponentText DoubleLiteral.exponentValue
    cases l.exponent with
    | none => rfl
    | some x => exact x.parseExponent_text
  have hvalue := decimal_eq l.allDigits_whole l.allDigits_fraction l.digits_ne hexponent
  unfold DoubleLiteral.unsigned DoubleLiteral.magnitude DoubleLiteral.mantissaDigits
    DoubleLiteral.fractionDigits
  have hfraction := l.allDigits_fraction
  cases hf : l.fraction with
  | none =>
    rw [hf] at hvalue
    show parseUnsignedDouble (l.whole ++ l.exponentText) = _
    rw [parseUnsignedDouble_digits l.allDigits_whole
      (fun c hc => (mark_ne (l.head_exponentText c hc)).1)]
    exact hvalue
  | some bs =>
    rw [hf, Option.getD_some] at hvalue hfraction
    show parseUnsignedDouble (l.whole ++ '.' :: (bs ++ l.exponentText)) = _
    rw [parseUnsignedDouble_point l.allDigits_whole hfraction
      (fun c hc => (mark_ne (l.head_exponentText c hc)).1.1)]
    exact hvalue

/-- What a text begins with, as far as it is digits, is digits. -/
theorem allDigits_takeWhile (cs : List Char) : AllDigits (cs.takeWhile Char.isDigit) :=
  fun _ hc => List.mem_takeWhile_imp hc

/-- What is read as digits, a fraction and an exponent is made of them. -/
theorem of_decimal_eq_some {as bs : List Char} (h : decimal as bs cs = some q) :
    as ++ bs ≠ [] ∧ ∃ z, parseExponent cs = some z
      ∧ (digitsValue (as ++ bs) : ℚ) * 10 ^ (z - bs.length) = q := by
  obtain ⟨n, hn, h⟩ := Option.bind_eq_some_iff.mp h
  obtain ⟨z, hz, h⟩ := Option.bind_eq_some_iff.mp h
  obtain ⟨-, hne, rfl⟩ := allDigits_of_parseRadix hn
  exact ⟨hne, z, hz, Option.some.inj h⟩

/-- **What is read without a sign is a literal without one.** -/
theorem exists_literal_unsigned (h : parseUnsignedDouble cs = some q) {sign : List Char}
    (hsign : sign = [] ∨ sign = ['+'] ∨ sign = ['-']) :
    ∃ l : DoubleLiteral, l.sign = sign ∧ l.unsigned = cs ∧ l.magnitude = q := by
  have hsplit : cs.takeWhile Char.isDigit ++ cs.dropWhile Char.isDigit = cs :=
    List.takeWhile_append_dropWhile
  unfold parseUnsignedDouble at h
  split at h
  · next ds hds =>
    obtain ⟨hne, z, hz, rfl⟩ := of_decimal_eq_some h
    obtain ⟨x, htext, rfl⟩ := exists_literalExponent hz
    refine ⟨⟨sign, cs.takeWhile Char.isDigit, some (ds.takeWhile Char.isDigit), x, hsign,
      allDigits_takeWhile cs, allDigits_takeWhile ds, hne⟩, rfl, ?_, rfl⟩
    show cs.takeWhile Char.isDigit
      ++ '.' :: (ds.takeWhile Char.isDigit ++ (x.map LiteralExponent.text).getD []) = cs
    rw [htext, List.takeWhile_append_dropWhile, ← hds, hsplit]
  · next ds _ =>
    obtain ⟨hne, z, hz, rfl⟩ := of_decimal_eq_some h
    obtain ⟨x, htext, rfl⟩ := exists_literalExponent hz
    refine ⟨⟨sign, cs.takeWhile Char.isDigit, none, x, hsign, allDigits_takeWhile cs,
      allDigits_nil, hne⟩, rfl, ?_, rfl⟩
    show cs.takeWhile Char.isDigit ++ (x.map LiteralExponent.text).getD [] = cs
    rw [htext, hsplit]

/-- The text of a literal has the characters of one. -/
theorem DoubleLiteral.isLiteral_text (l : DoubleLiteral) : IsLiteral l.text := by
  have hsign {sign : List Char} (h : sign = [] ∨ sign = ['+'] ∨ sign = ['-']) :
      IsLiteral sign := by
    rcases h with rfl | rfl | rfl
    · exact allDigits_nil.isLiteral
    · exact allDigits_nil.isLiteral.cons (by decide)
    · exact allDigits_nil.isLiteral.cons (by decide)
  have hexponent : IsLiteral l.exponentText := by
    unfold DoubleLiteral.exponentText
    cases l.exponent with
    | none => exact allDigits_nil.isLiteral
    | some x =>
      refine IsLiteral.cons ?_ ((hsign x.sign_mem).append x.allDigits.isLiteral)
      rcases x.mark_mem with h | h
      · rw [h]
        decide
      · rw [h]
        decide
  have hfraction : IsLiteral ((l.fraction.map (fun bs => '.' :: bs)).getD []) := by
    have hdigits := l.allDigits_fraction
    cases hf : l.fraction with
    | none => exact allDigits_nil.isLiteral
    | some bs =>
      rw [hf] at hdigits
      exact hdigits.isLiteral.cons (by decide)
  exact (hsign l.sign_mem).append (l.allDigits_whole.isLiteral.append
    (hfraction.append hexponent))

/-- A literal begins with no sign but its own. -/
theorem DoubleLiteral.head_unsigned (l : DoubleLiteral) :
    ∀ c ∈ l.unsigned.head?, c ≠ '-' ∧ c ≠ '+' := by
  refine head_ne_sign l.allDigits_whole ?_
  intro c hc
  cases hf : l.fraction with
  | none =>
    rw [hf] at hc
    exact (mark_ne (l.head_exponentText c hc)).2
  | some bs =>
    rw [hf] at hc
    obtain rfl : '.' = c := Option.some.inj hc
    decide

/-- **A literal is read as the number it denotes.** -/
theorem DoubleLiteral.doubleTryParse_text (l : DoubleLiteral) :
    doubleTryParse (String.ofList l.text) = some l.value := by
  have htrim : trimWhitespace l.text = l.text :=
    trimWhitespace_of_forall (fun c hc => isWhitespace_eq_false (l.isLiteral_text c hc))
  have hread := l.parseUnsignedDouble_unsigned
  rw [doubleTryParse, String.toList_ofList, htrim]
  unfold DoubleLiteral.text DoubleLiteral.value
  rcases l.sign_mem with hsign | hsign | hsign
  · rw [hsign, if_neg (by decide), List.nil_append]
    split
    · next ds hds => exact absurd rfl (l.head_unsigned '-' (by rw [hds]; rfl)).1
    · next ds hds => exact absurd rfl (l.head_unsigned '+' (by rw [hds]; rfl)).2
    · exact hread
  · rw [hsign, if_neg (by decide)]
    exact hread
  · rw [hsign, if_pos rfl]
    show (parseUnsignedDouble l.unsigned).map (fun q => -q) = _
    rw [hread]
    rfl

/-- **What is read is a literal**, if there is no white space around it. -/
theorem exists_doubleLiteral (hspace : ∀ c ∈ cs, isWhitespace c = false)
    (h : doubleTryParse (String.ofList cs) = some q) :
    ∃ l : DoubleLiteral, l.text = cs ∧ l.value = q := by
  rw [doubleTryParse, String.toList_ofList, trimWhitespace_of_forall hspace] at h
  unfold DoubleLiteral.text DoubleLiteral.value
  split at h
  · obtain ⟨p, hp, rfl⟩ := Option.map_eq_some_iff.mp h
    obtain ⟨l, hsign, hunsigned, rfl⟩ := exists_literal_unsigned hp (Or.inr (Or.inr rfl))
    refine ⟨l, ?_, ?_⟩
    · rw [hsign, hunsigned]
      rfl
    · rw [hsign, if_pos rfl]
  · obtain ⟨l, hsign, hunsigned, rfl⟩ := exists_literal_unsigned h (Or.inr (Or.inl rfl))
    refine ⟨l, ?_, ?_⟩
    · rw [hsign, hunsigned]
      rfl
    · rw [hsign, if_neg (by decide)]
  · obtain ⟨l, hsign, hunsigned, rfl⟩ := exists_literal_unsigned h (Or.inl rfl)
    refine ⟨l, ?_, ?_⟩
    · rw [hsign, hunsigned]
      rfl
    · rw [hsign, if_neg (by decide)]

end Grammar

/-! ## Literals in closed form -/

section Literals

variable {as bs : List Char}

/-- **A row of digits is read as its number.** -/
theorem doubleTryParse_digits (ha : AllDigits as) (hne : as ≠ []) :
    doubleTryParse (String.ofList as) = some (digitsValue as : ℚ) := by
  let l : DoubleLiteral := ⟨[], as, none, none, Or.inl rfl, ha, allDigits_nil,
    by rw [Option.getD_none, List.append_nil]; exact hne⟩
  have htext : l.text = as := List.append_nil as
  have hvalue : l.value = digitsValue as := by
    show (digitsValue (as ++ []) : ℚ) * 10 ^ (0 : ℤ) = _
    rw [List.append_nil, zpow_zero, mul_one]
  rw [← hvalue, ← l.doubleTryParse_text, htext]

/-- **Digits with a point among them** are read as the number of all the digits,
divided. -/
theorem doubleTryParse_point (ha : AllDigits as) (hb : AllDigits bs) (hne : as ++ bs ≠ []) :
    doubleTryParse (String.ofList (as ++ '.' :: bs))
      = some ((digitsValue (as ++ bs) : ℚ) / 10 ^ bs.length) := by
  let l : DoubleLiteral := ⟨[], as, some bs, none, Or.inl rfl, ha, hb, hne⟩
  have htext : l.text = as ++ '.' :: bs := congrArg (as ++ ·) (List.append_nil ('.' :: bs))
  have hvalue : l.value = digitsValue (as ++ bs) / 10 ^ bs.length := by
    show (digitsValue (as ++ bs) : ℚ) * 10 ^ (0 - bs.length : ℤ) = _
    rw [zero_sub, zpow_neg, zpow_natCast, div_eq_mul_inv]
  rw [← hvalue, ← l.doubleTryParse_text, htext]

/-- A minus before a literal is one before its number. -/
theorem doubleTryParse_minus {cs : List Char} (h : IsLiteral cs)
    (hsign : ∀ c ∈ cs.head?, c ≠ '-' ∧ c ≠ '+') :
    doubleTryParse (String.ofList ('-' :: cs))
      = (doubleTryParse (String.ofList cs)).map (fun q => -q) := by
  have hspace : ∀ ds : List Char, IsLiteral ds → ∀ c ∈ ds, isWhitespace c = false :=
    fun _ hds c hc => isWhitespace_eq_false (hds c hc)
  rw [doubleTryParse_ofList (hspace cs h) hsign, doubleTryParse, String.toList_ofList,
    trimWhitespace_of_forall (hspace ('-' :: cs) (h.cons (by decide)))]
  rfl

/-- A whole number, with a point and a zero. -/
theorem doubleTryParse_whole (n : ℕ) :
    doubleTryParse (String.ofList (Nat.toDigits 10 n ++ ['.', '0'])) = some (n : ℚ) := by
  have hvalue : digitsValue (Nat.toDigits 10 n ++ ['0']) = 10 * n := by
    rw [digitsValue_append, digitsValue_toDigits]
    rfl
  rw [doubleTryParse_point (allDigits_toDigits n) (allDigits_singleton rfl) (by simp), hvalue,
    List.length_singleton, pow_one]
  push_cast
  rw [mul_div_cancel_left₀ _ (by norm_num)]

/-- A number of tenths, hundredths, or any other power. -/
theorem doubleTryParse_fraction (n k : ℕ) :
    doubleTryParse (String.ofList (Nat.toDigits 10 n ++ 'e' :: '-' :: Nat.toDigits 10 k))
      = some ((n : ℚ) / 10 ^ k) := by
  let x : LiteralExponent := ⟨'e', ['-'], Nat.toDigits 10 k, Or.inl rfl, Or.inr (Or.inr rfl),
    allDigits_toDigits k, Nat.toDigits_ne_nil⟩
  let l : DoubleLiteral := ⟨[], Nat.toDigits 10 n, none, some x, Or.inl rfl, allDigits_toDigits n,
    allDigits_nil, fun h => Nat.toDigits_ne_nil (List.append_eq_nil_iff.mp h).1⟩
  have hvalue : l.value = n / 10 ^ k := by
    show (digitsValue (Nat.toDigits 10 n ++ []) : ℚ)
      * 10 ^ (-(digitsValue (Nat.toDigits 10 k) : ℤ) - (0 : ℕ)) = _
    rw [List.append_nil, digitsValue_toDigits, digitsValue_toDigits, Nat.cast_zero, sub_zero,
      zpow_neg, zpow_natCast, div_eq_mul_inv]
  rw [← hvalue, ← l.doubleTryParse_text]
  rfl

end Literals
