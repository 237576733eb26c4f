import Enmart.Base.Amounts
import Enmart.Firestore.Value

/-!
# Instants and integer literals of the language

The pieces of the language's own library the program reads its data with.

A `DateTime` counts microseconds. `millisecondsSinceEpoch` forgets the last
three digits, so two instants of one millisecond have one
`millisecondsSinceEpoch` – keys are made of it. A timestamp of the store
counts microseconds too, so storing an instant and reading it back is the
identity (`DateTime.ofTimestamp_toTimestamp`).

`intTryParse` reads an integer literal as `int.tryParse` does: white space
around it is ignored, then an optional sign, then decimal digits, or `0x`
and hexadecimal ones. A decimal literal outside the 64-bit range is no
integer; an unsigned hexadecimal one below `2^64` is read as the word it
spells. Printing an integer and reading the text is the identity
(`intTryParse_toString`).

`doubleTryParse` reads a decimal literal with a fraction and an exponent, as
`double.tryParse` does; the number it denotes is taken exactly, and a literal
that denotes none is not read.
-/

open Firestore

/-- An instant, in microseconds since the epoch. -/
structure DateTime where
  /-- The microseconds counted since the epoch. -/
  microsecondsSinceEpoch : ℤ
  deriving DecidableEq, Repr

namespace DateTime

/-- The milliseconds since the epoch, truncated. -/
def millisecondsSinceEpoch (dt : DateTime) : ℤ :=
  dt.microsecondsSinceEpoch.tdiv 1000

/-- `Timestamp.fromDate`. -/
def toTimestamp (dt : DateTime) : Timestamp := ⟨dt.microsecondsSinceEpoch⟩

/-- `Timestamp.toDate`, where instants keep their microseconds. -/
def ofTimestamp (t : Timestamp) : DateTime := ⟨t.microseconds⟩

/-- **Storing an instant and reading it back is the identity.** -/
@[simp] theorem ofTimestamp_toTimestamp (dt : DateTime) :
    ofTimestamp dt.toTimestamp = dt := rfl

/-- **What a `DateTime` can be**: a hundred million days either way. -/
def InRange (dt : DateTime) : Prop :=
  -8640000000000000 ≤ dt.millisecondsSinceEpoch ∧ dt.millisecondsSinceEpoch ≤ 8640000000000000

instance (dt : DateTime) : Decidable dt.InRange := inferInstanceAs (Decidable (_ ∧ _))

/-- `DateTime.fromMillisecondsSinceEpoch`, unless the count is out of range. -/
def fromMillisecondsSinceEpoch (n : Int64) : Option DateTime :=
  if -8640000000000000 ≤ n.toInt ∧ n.toInt ≤ 8640000000000000 then some ⟨1000 * n.toInt⟩ else none

/-- An instant is read from its milliseconds, without the rest. -/
theorem fromMillisecondsSinceEpoch_ofInt {dt : DateTime} (h : dt.InRange) :
    fromMillisecondsSinceEpoch (.ofInt dt.millisecondsSinceEpoch)
      = some ⟨1000 * dt.millisecondsSinceEpoch⟩ := by
  obtain ⟨hlo, hhi⟩ := h
  have hword : (Int64.ofInt dt.millisecondsSinceEpoch).toInt = dt.millisecondsSinceEpoch :=
    Int64.toInt_ofInt_of_le (by omega) (by omega)
  rw [fromMillisecondsSinceEpoch, hword, if_pos ⟨hlo, hhi⟩]

/-- What a platform's `DateTime` keeps of an instant: native ones count
microseconds, on the web it counts milliseconds. -/
inductive Precision where
  | microseconds
  | milliseconds
  deriving DecidableEq, Repr

/-- The milliseconds nearest to a count of microseconds, halves going away from
zero. -/
def roundMilliseconds (microseconds : ℤ) : ℤ :=
  microseconds.sign * ((microseconds.natAbs + 500) / 1000 : ℕ)

/-- Whole milliseconds are their own nearest. -/
theorem roundMilliseconds_mul (k : ℤ) : roundMilliseconds (1000 * k) = k := by
  have hdiv : ((1000 * k).natAbs + 500) / 1000 = k.natAbs := by
    rw [Int.natAbs_mul, show Int.natAbs 1000 = 1000 from rfl]
    omega
  have hsign : (1000 * k).sign = k.sign := by
    rw [Int.sign_mul, show Int.sign 1000 = 1 from rfl, one_mul]
  rw [roundMilliseconds, hdiv, hsign, Int.sign_mul_natAbs]

/-- `Timestamp.toDate`, on a platform of that precision. -/
def ofTimestampAt : Precision → Timestamp → DateTime
  | .microseconds, t => ofTimestamp t
  | .milliseconds, t => ⟨1000 * roundMilliseconds t.microseconds⟩

/-- An instant once read is read back unchanged. -/
@[simp] theorem ofTimestampAt_toTimestamp (p : Precision) (t : Timestamp) :
    ofTimestampAt p (ofTimestampAt p t).toTimestamp = ofTimestampAt p t := by
  cases p with
  | microseconds => rfl
  | milliseconds =>
    show DateTime.mk (1000 * roundMilliseconds (1000 * roundMilliseconds t.microseconds))
      = ⟨1000 * roundMilliseconds t.microseconds⟩
    rw [roundMilliseconds_mul]

/-- Whether a platform reads a stored instant without loss. -/
def Precision.keeps (p : Precision) (t : Timestamp) : Bool :=
  (ofTimestampAt p t).toTimestamp = t

end DateTime

/-! ## Integer literals -/

/-- The white space a literal may have around it. -/
def isWhitespace (c : Char) : Bool :=
  (9 ≤ c.toNat && c.toNat ≤ 13) || c.toNat == 0x20 || c.toNat == 0x85
    || c.toNat == 0xA0 || c.toNat == 0x1680
    || (0x2000 ≤ c.toNat && c.toNat ≤ 0x200A) || c.toNat == 0x2028
    || c.toNat == 0x2029 || c.toNat == 0x202F || c.toNat == 0x205F
    || c.toNat == 0x3000 || c.toNat == 0xFEFF

/-- A text without the white space around it. -/
def trimWhitespace (cs : List Char) : List Char :=
  ((cs.dropWhile isWhitespace).reverse.dropWhile isWhitespace).reverse

/-- The value of a digit; a character that is none has a value no radix
reaches. -/
def digitValue (c : Char) : ℕ :=
  if c.isDigit then c.toNat - '0'.toNat
  else if 'a' ≤ c ∧ c ≤ 'z' then c.toNat - 87
  else if 'A' ≤ c ∧ c ≤ 'Z' then c.toNat - 55
  else 36

/-- The number a non-empty row of digits denotes. -/
def parseRadix (radix : ℕ) (cs : List Char) : Option ℕ :=
  if cs ≠ [] ∧ cs.all (fun c => digitValue c < radix) then
    some (cs.foldl (fun n c => radix * n + digitValue c) 0)
  else none

/-- The word a decimal literal denotes, if it is in range. -/
def parseDecimal (neg : Bool) (cs : List Char) : Option Int64 :=
  (parseRadix 10 cs).bind (fun n =>
    let z : ℤ := if neg then -n else n
    if Int64.Fits z then some (Int64.ofInt z) else none)

/-- The word a hexadecimal literal denotes: an unsigned one may use all 64
bits. -/
def parseHex (neg : Bool) (cs : List Char) : Option Int64 :=
  (parseRadix 16 cs).bind (fun n =>
    if neg then (if n ≤ 2 ^ 63 then some (Int64.ofInt (-n)) else none)
    else (if n < 2 ^ 64 then some (Int64.ofInt n) else none))

/-- The word a literal denotes, its sign already read. -/
def parseUnsigned (neg : Bool) (cs : List Char) : Option Int64 :=
  match cs with
  | '0' :: 'x' :: ds => parseHex neg ds
  | '0' :: 'X' :: ds => parseHex neg ds
  | ds => parseDecimal neg ds

/-- The word a literal denotes, with the sign it may have. -/
def parseLiteral (cs : List Char) : Option Int64 :=
  match cs with
  | '-' :: ds => parseUnsigned true ds
  | '+' :: ds => parseUnsigned false ds
  | ds => parseUnsigned false ds

/-- **`int.tryParse`.** -/
def intTryParse (source : String) : Option Int64 :=
  parseLiteral (trimWhitespace source.toList)

section PrintParse

/-- A text without white space is what trimming leaves of it. -/
theorem trimWhitespace_of_forall {cs : List Char}
    (h : ∀ c ∈ cs, isWhitespace c = false) : trimWhitespace cs = cs := by
  have hdrop : ∀ ds : List Char, (∀ c ∈ ds, isWhitespace c = false) →
      ds.dropWhile isWhitespace = ds := by
    intro ds hds
    cases ds with
    | nil => rfl
    | cons d ds =>
      exact List.dropWhile_cons_of_neg
        (by rw [hds d (List.mem_cons_self ..)]; exact Bool.false_ne_true)
  rw [trimWhitespace, hdrop cs h,
    hdrop cs.reverse (fun c hc => h c (List.mem_reverse.mp hc)),
    List.reverse_reverse]

/-- A decimal digit lies between `0` and `9`. -/
theorem isDigit_bounds {c : Char} (h : c.isDigit = true) :
    48 ≤ c.toNat ∧ c.toNat ≤ 57 := by
  simp only [Char.isDigit, Bool.and_eq_true, decide_eq_true_eq] at h
  exact ⟨UInt32.le_iff_toNat_le.mp h.1, UInt32.le_iff_toNat_le.mp h.2⟩

theorem isWhitespace_of_isDigit {c : Char} (h : c.isDigit = true) :
    isWhitespace c = false := by
  obtain ⟨h₁, h₂⟩ := isDigit_bounds h
  simp only [isWhitespace, Bool.or_eq_false_iff, Bool.and_eq_false_iff,
    decide_eq_false_iff_not, beq_eq_false_iff_ne]
  omega

/-- A row of digits denotes the number of which they are the digits. -/
theorem parseRadix_of_forall {ds : List Char} (hne : ds ≠ [])
    (hdig : ∀ c ∈ ds, c.isDigit = true) :
    parseRadix 10 ds = some (Nat.ofDigitChars 10 ds 0) := by
  have hval : ∀ c ∈ ds, digitValue c = c.toNat - '0'.toNat :=
    fun c hc => by rw [digitValue, if_pos (hdig c hc)]
  have hlt : ds.all (fun c => digitValue c < 10) = true := by
    refine List.all_eq_true.mpr (fun c hc => decide_eq_true ?_)
    have hb := isDigit_bounds (hdig c hc)
    have hzero : '0'.toNat = 48 := rfl
    rw [hval c hc, hzero]
    omega
  have hfold : ∀ (ds : List Char) (k : ℕ), (∀ c ∈ ds, digitValue c = c.toNat - '0'.toNat) →
      ds.foldl (fun n c => 10 * n + digitValue c) k = Nat.ofDigitChars 10 ds k := by
    intro ds
    induction ds with
    | nil => intro k _; rw [Nat.ofDigitChars_nil]; rfl
    | cons d ds ih =>
      intro k h
      rw [List.foldl_cons, Nat.ofDigitChars_cons,
        ih _ (fun c hc => h c (List.mem_cons_of_mem d hc)),
        h d (List.mem_cons_self ..)]
  rw [parseRadix, if_pos ⟨hne, hlt⟩, hfold _ _ hval]

/-- The digits of a number denote it. -/
theorem parseRadix_toDigits (n : ℕ) :
    parseRadix 10 (Nat.toDigits 10 n) = some n := by
  rw [parseRadix_of_forall Nat.toDigits_ne_nil
    (fun c hc => Nat.isDigit_of_mem_toDigits (by decide) (by decide) hc),
    Nat.ofDigitChars_ten_toDigits]

/-- Digits are read as a decimal literal: none of them is the `x` of a
hexadecimal one. -/
theorem parseUnsigned_of_forall {neg : Bool} {cs : List Char}
    (h : ∀ c ∈ cs, c.isDigit = true) :
    parseUnsigned neg cs = parseDecimal neg cs := by
  unfold parseUnsigned
  split
  · exact absurd (h 'x' (by simp)) (by decide)
  · exact absurd (h 'X' (by simp)) (by decide)
  · rfl

/-- Digits without a sign are read as a decimal literal. -/
theorem parseLiteral_of_forall {cs : List Char}
    (h : ∀ c ∈ cs, c.isDigit = true) :
    parseLiteral cs = parseDecimal false cs := by
  unfold parseLiteral
  split
  · exact absurd (h '-' (by simp)) (by decide)
  · exact absurd (h '+' (by simp)) (by decide)
  · exact parseUnsigned_of_forall h

/-- The decimal digits of a magnitude, read with a sign, give the word of
that sign and magnitude. -/
theorem parseDecimal_toDigits {neg : Bool} {k : ℕ} {n : Int64}
    (h : (if neg then -(k : ℤ) else k) = n.toInt) :
    parseDecimal neg (Nat.toDigits 10 k) = some n := by
  rw [parseDecimal, parseRadix_toDigits]
  show (if Int64.Fits (if neg then -(k : ℤ) else k) then
      some (Int64.ofInt (if neg then -(k : ℤ) else k)) else none) = some n
  rw [h, if_pos n.fits_toInt, Int64.ofInt_toInt]

/-- **Printing an integer and reading the text is the identity.** -/
theorem intTryParse_toString (n : Int64) :
    intTryParse (toString n.toInt) = some n := by
  have hdig : ∀ k : ℕ, ∀ c ∈ Nat.toDigits 10 k, c.isDigit = true :=
    fun k c hc => Nat.isDigit_of_mem_toDigits (by decide) (by decide) hc
  have hspace : ∀ k : ℕ, ∀ c ∈ Nat.toDigits 10 k, isWhitespace c = false :=
    fun k c hc => isWhitespace_of_isDigit (hdig k c hc)
  rw [Int.toString_eq_repr, Int.repr_eq_if, intTryParse]
  by_cases hpos : 0 ≤ n.toInt
  · rw [if_pos hpos, Nat.toList_repr, trimWhitespace_of_forall (hspace _),
      parseLiteral_of_forall (hdig _)]
    exact parseDecimal_toDigits (by rw [if_neg Bool.false_ne_true]; omega)
  · -- a negative number prints as a sign and the digits of its magnitude
    have hlist : ("-" ++ (-n.toInt).toNat.repr).toList
        = '-' :: Nat.toDigits 10 (-n.toInt).toNat := by
      rw [String.toList_append, Nat.toList_repr]
      rfl
    have htrim : ∀ c ∈ '-' :: Nat.toDigits 10 (-n.toInt).toNat,
        isWhitespace c = false := by
      intro c hc
      rcases List.mem_cons.mp hc with rfl | hc
      · decide
      · exact hspace _ c hc
    rw [if_neg hpos, hlist, trimWhitespace_of_forall htrim]
    show parseUnsigned true (Nat.toDigits 10 (-n.toInt).toNat) = some n
    rw [parseUnsigned_of_forall (hdig _)]
    exact parseDecimal_toDigits (by rw [if_pos rfl]; omega)

end PrintParse

/-! ## Double literals -/

/-- The exponent a literal ends in, if it has one. -/
def parseExponent : List Char → Option ℤ
  | [] => some 0
  | c :: cs =>
    if c = 'e' ∨ c = 'E' then
      match cs with
      | '-' :: ds => (parseRadix 10 ds).map (fun n : ℕ => -(n : ℤ))
      | '+' :: ds => (parseRadix 10 ds).map (fun n : ℕ => (n : ℤ))
      | ds => (parseRadix 10 ds).map (fun n : ℕ => (n : ℤ))
    else none

/-- The number some digits, a fraction and an exponent denote. -/
def decimal (digits fraction : List Char) (rest : List Char) : Option ℚ := do
  let mantissa ← parseRadix 10 (digits ++ fraction)
  let exponent ← parseExponent rest
  return (mantissa : ℚ) * (10 : ℚ) ^ (exponent - fraction.length)

/-- The number a literal denotes, its sign already read: digits that may be
followed by a point and more of them, or a point followed by digits. -/
def parseUnsignedDouble (cs : List Char) : Option ℚ :=
  match cs.dropWhile Char.isDigit with
  | '.' :: ds => decimal (cs.takeWhile Char.isDigit) (ds.takeWhile Char.isDigit)
      (ds.dropWhile Char.isDigit)
  | ds => decimal (cs.takeWhile Char.isDigit) [] ds

/-- **`double.tryParse`**, where the literal denotes a number. -/
def doubleTryParse (source : String) : Option ℚ :=
  match trimWhitespace source.toList with
  | '-' :: ds => (parseUnsignedDouble ds).map (fun q => -q)
  | '+' :: ds => parseUnsignedDouble ds
  | ds => parseUnsignedDouble ds

example : doubleTryParse " 12.50e-1 " = some (5 / 4) := by decide +kernel

example : doubleTryParse "12,5" = none := by decide +kernel
