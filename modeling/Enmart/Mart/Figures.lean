import Enmart.Base.Fixed
import Enmart.Base.RoundingError
import Enmart.Mart.Completion
import Enmart.Orders.Pricing
import Enmart.Products.Updating

/-!
# The figures on a page of orders

Two figures on the pages of orders are computed with doubles: how much of a line
has been dispatched, in per cent, and what an order costs. Both are shown with
two digits after the point.

A line shows `100.00` only when all of it has been dispatched, and `0.00` only
when nothing has (`percent_shown`). That is the modal's doing: with four
counters there are at most 9999 pieces in a line, and a line of 30000 could miss
one and show `100.00`. The total is what the prices add up to, give or take
half a cent and a rounding for each line (`grand_total_shown`), and whole prices
are added without any (`grand_total_whole`).
-/

open Firestore FloatFormat

/-- A whole number that is a double. -/
theorem isRepresentable_binary64 {n : ℤ} (hn : |n| ≤ 2 ^ 53) : binary64.IsRepresentable n :=
  isRepresentable_intCast (by decide) hn

/-- A whole number is not rounded. -/
theorem round_binary64_intCast {n : ℤ} (hn : |n| ≤ 2 ^ 53) : binary64.round n = n :=
  (isRepresentable_binary64 hn).round_eq

/-! ## How much of a line has been dispatched -/

/-- **The percentage of a line**, as it is shown. -/
def OrderModel.percent (showDouble : ℚ → String) (e : OrderModel) : String :=
  toStringAsFixed showDouble
    (binary64.round (binary64.round
      (binary64.round e.dispatched.toInt / binary64.round e.quantity.toInt) * 100)) 2

/-- A part of some pieces that is not too small is rounded by a part of it. -/
theorem isFine_div {d q : ℤ} (hd : 0 ≤ d) (hq : 0 < q) (hq' : q ≤ 9999) :
    binary64.IsFine ((d : ℚ) / q) := by
  have hqpos : (0 : ℚ) < q := by exact_mod_cast hq
  rcases eq_or_lt_of_le hd with rfl | hpos
  · exact Or.inl ⟨0, by simp⟩
  · have hx : (0 : ℚ) < d / q := div_pos (by exact_mod_cast hpos) hqpos
    have hlow : ((2 : ℕ) : ℚ) ^ (-14 : ℤ) ≤ |(d : ℚ) / q| := by
      rw [abs_of_pos hx, le_div_iff₀ hqpos]
      have hone : (1 : ℚ) ≤ d := by exact_mod_cast hpos
      have hmost : (q : ℚ) ≤ 9999 := by exact_mod_cast hq'
      calc ((2 : ℕ) : ℚ) ^ (-14 : ℤ) * q ≤ ((2 : ℕ) : ℚ) ^ (-14 : ℤ) * 9999 :=
            mul_le_mul_of_nonneg_left hmost (by positivity)
        _ ≤ 1 := by norm_num
        _ ≤ d := hone
    have hlog := (Int.zpow_le_iff_le_log (by norm_num) (abs_pos.mpr hx.ne')).mp hlow
    refine Or.inr ?_
    show (-1074 : ℤ) ≤ Int.log 2 |(d : ℚ) / q| - ((53 : ℕ) - 1)
    omega

/-- **How far a percentage is off**, before it is shown. -/
theorem abs_percent_sub_le {d q : ℤ} (hd : 0 ≤ d) (hdq : d ≤ q) (hq : 0 < q) (hq' : q ≤ 9999) :
    |binary64.round (binary64.round ((d : ℚ) / q) * 100) - 100 * ((d : ℚ) / q)|
      ≤ 1 / 10 ^ 9 := by
  have hqpos : (0 : ℚ) < q := by exact_mod_cast hq
  have hx₀ : (0 : ℚ) ≤ d / q := div_nonneg (by exact_mod_cast hd) hqpos.le
  have hx₁ : (d : ℚ) / q ≤ 1 := (div_le_one hqpos).mpr (by exact_mod_cast hdq)
  generalize hx : (d : ℚ) / q = x at hx₀ hx₁
  have hfine : binary64.IsFine x := hx ▸ isFine_div hd hq hq'
  have hunit : binary64.unit = 1 / 2 ^ 53 := rfl
  have hdiv := hfine.abs_round_sub_le
  rw [abs_of_nonneg hx₀, hunit] at hdiv
  have hmultiple : binary64.IsMultiple (binary64.round x * 100) := by
    have := (binary64.isRepresentable_round x).isMultiple.mul_intCast 100
    exact_mod_cast this
  have hmul := IsFine.abs_round_sub_le (F := binary64) (Or.inl hmultiple)
  rw [hunit] at hmul
  -- both roundings are of numbers that are no more than a little above 100
  obtain ⟨hlo, hhi⟩ := abs_le.mp hdiv
  have hsize : |binary64.round x * 100| ≤ 200 := by
    rw [abs_le]
    constructor
    · linarith
    · linarith
  have hsecond : |binary64.round (binary64.round x * 100) - binary64.round x * 100|
      ≤ 1 / 2 ^ 53 * 200 := hmul.trans (mul_le_mul_of_nonneg_left hsize (by positivity))
  obtain ⟨hlo', hhi'⟩ := abs_le.mp hsecond
  rw [abs_le]
  constructor
  · linarith
  · linarith

/-- **What a line shows**, of at most 9999 pieces. -/
theorem OrderModel.percent_eq_iff (showDouble : ℚ → String) {e : OrderModel}
    (hd : 0 ≤ e.dispatched.toInt) (hdq : e.dispatched.toInt ≤ e.quantity.toInt)
    (hq : 0 < e.quantity.toInt) (hq' : e.quantity.toInt ≤ 9999) :
    (e.percent showDouble = "0.00" ↔ e.dispatched.toInt = 0)
      ∧ (e.percent showDouble = "100.00" ↔ e.dispatched = e.quantity) := by
  rw [← Int64.toInt_inj, percent, round_binary64_intCast (abs_le.mpr ⟨by omega, by omega⟩),
    round_binary64_intCast (abs_le.mpr ⟨by omega, by omega⟩)]
  generalize e.dispatched.toInt = d at hd hdq
  generalize e.quantity.toInt = q at hdq hq hq'
  have hqpos : (0 : ℚ) < q := by exact_mod_cast hq
  have hmost : (q : ℚ) ≤ 9999 := by exact_mod_cast hq'
  obtain ⟨hlo, hhi⟩ := abs_le.mp (abs_percent_sub_le hd hdq hq hq')
  have hx₀ : (0 : ℚ) ≤ d / q := div_nonneg (by exact_mod_cast hd) hqpos.le
  have hx₁ : (d : ℚ) / q ≤ 1 := (div_le_one hqpos).mpr (by exact_mod_cast hdq)
  -- a piece is more than a hundredth of a per cent
  have hpiece : (1 : ℚ) / 9999 ≤ 1 / q := one_div_le_one_div_of_le hqpos hmost
  have hnone : d = 0 ∨ (1 : ℚ) / 9999 ≤ d / q := by
    rcases eq_or_lt_of_le hd with h | h
    · exact Or.inl h.symm
    · have hone : (1 : ℚ) ≤ d := by exact_mod_cast h
      exact Or.inr (hpiece.trans (div_le_div_of_nonneg_right hone hqpos.le))
  have hall : d = q ∨ (d : ℚ) / q ≤ 1 - 1 / 9999 := by
    rcases eq_or_lt_of_le hdq with h | h
    · exact Or.inl h
    · have hone : (d : ℚ) ≤ q - 1 := by
        have : d ≤ q - 1 := by omega
        exact_mod_cast this
      have hless := div_le_div_of_nonneg_right hone hqpos.le
      rw [sub_div, div_self hqpos.ne'] at hless
      exact Or.inr (by linarith)
  have hround : 0 ≤ binary64.round (binary64.round ((d : ℚ) / q) * 100) := by
    rcases hnone with rfl | h
    · rw [Int.cast_zero, zero_div, round_zero, zero_mul, round_zero]
    · linarith
  have hshown := @toStringAsFixed_eq_iff showDouble _ hround (by linarith) 2
  constructor
  · refine (hshown 0).trans ⟨fun ⟨_, h⟩ => hnone.resolve_right (fun h' => ?_), ?_⟩
    · norm_num at h
      linarith
    · rintro rfl
      rw [Int.cast_zero, zero_div, round_zero, zero_mul, round_zero]
      norm_num
  · refine (hshown 10000).trans ⟨fun ⟨h, _⟩ => hall.resolve_right (fun h' => ?_), ?_⟩
    · norm_num at h
      linarith
    · rintro rfl
      rw [div_self hqpos.ne'] at hlo hhi ⊢
      exact ⟨by norm_num; linarith, by norm_num; linarith⟩

/-- **A row of digits is read as the number it spells**, if it is read. -/
theorem toInt_of_allDigits {text : String} (hdigits : AllDigits text.toList) (hne : text.toList ≠ [])
    {n : Int64} (h : intTryParse text = some n) : n.toInt = digitsValue text.toList := by
  rw [intTryParse, trimWhitespace_of_forall (fun c hc => isWhitespace_of_isDigit (hdigits c hc)),
    parseLiteral_of_forall hdigits, parseDecimal, parseRadix_of_forall hne hdigits] at h
  obtain ⟨k, hk, hn⟩ := Option.bind_eq_some_iff.mp h
  obtain rfl : digitsValue text.toList = k := Option.some.inj hk
  by_cases hfit : Int64.Fits (digitsValue text.toList : ℤ)
  · have hof : some (Int64.ofInt (digitsValue text.toList : ℤ)) = some n := by
      rw [← hn]
      exact (if_pos hfit).symm
    rw [← Option.some.inj hof, Int64.toInt_ofInt_of_le hfit.1 hfit.2]
  · have hnone : none = some n := by
      rw [← hn]
      exact (if_neg hfit).symm
    exact absurd hnone.symm (Option.some_ne_none n)

/-- Four digits spell no more than 9999. -/
theorem toInt_le_of_text {n : SliderCounters} {quantity : Int64}
    (h : intTryParse n.text = some quantity) : quantity.toInt ≤ 9999 := by
  have hdigit (k : Fin 10) : ∃ c, (toString k.val).toList = [c] ∧ c.isDigit = true := by
    refine ⟨Nat.digitChar k.val, ?_, ?_⟩
    · rw [Nat.toString_eq_ofList_toDigits, String.toList_ofList, Nat.toDigits_of_lt_base k.isLt]
    · revert k
      decide
  obtain ⟨c₃, h₃, hd₃⟩ := hdigit n.n3
  obtain ⟨c₂, h₂, hd₂⟩ := hdigit n.n2
  obtain ⟨c₁, h₁, hd₁⟩ := hdigit n.n1
  obtain ⟨c₀, h₀, hd₀⟩ := hdigit n.n0
  have htext : n.text.toList = [c₃, c₂, c₁, c₀] := by
    simp only [SliderCounters.text, String.toList_append, h₃, h₂, h₁, h₀]
    rfl
  have hdigits : AllDigits [c₃, c₂, c₁, c₀] := by
    simp [AllDigits, hd₃, hd₂, hd₁, hd₀]
  have hlt := digitsValue_lt hdigits
  have hvalue := toInt_of_allDigits (htext ▸ hdigits) (by rw [htext]; exact List.cons_ne_nil _ _) h
  rw [htext] at hvalue
  rw [List.length_cons, List.length_cons, List.length_cons, List.length_singleton] at hlt
  omega

/-- **The modal adds at most 9999 pieces.** -/
theorem quantity_le_of_addToCartModal {productId : String} {n : SliderCounters}
    {now now' : DateTime} {o : OrderModel} (h : addToCartModal productId n now now' = some o) :
    o.quantity.toInt ≤ 9999 := by
  obtain ⟨quantity, hquantity, h⟩ := Option.bind_eq_some_iff.mp h
  obtain ⟨-, h⟩ := Option.ite_none_left_eq_some.mp h
  obtain rfl := Option.some.inj h
  exact toInt_le_of_text hquantity

/-- What is put in a basket is a piece at least and 9999 at most. -/
theorem pieces_of_mem_martEvents {s : MartState} {a : MartAction} {customer : String} {i : Item}
    (h : MartEvent.put customer i ∈ martEvents s a) : 0 < i.pieces ∧ i.pieces ≤ 9999 := by
  cases a with
  | addToCart device productId n now now' =>
    obtain ⟨uid, -, h⟩ := Option.bind_eq_some_iff.mp (Option.mem_toList.mp h)
    obtain ⟨o, ho, h⟩ := Option.map_eq_some_iff.mp h
    obtain ⟨-, rfl⟩ := MartEvent.put.inj h
    have hle := quantity_le_of_addToCartModal ho
    have hpos := (isCartLine_of_addToCartModal ho).quantity
    show 0 < o.quantity.toInt.toNat ∧ o.quantity.toInt.toNat ≤ 9999
    omega
  | checkout device dt =>
    obtain ⟨uid, -, h⟩ := Option.map_eq_some_iff.mp (Option.mem_toList.mp h)
    exact nomatch h
  | dispatch key e text =>
    obtain ⟨m, -, h⟩ := Option.bind_eq_some_iff.mp (Option.mem_toList.mp h)
    obtain ⟨n, -, h⟩ := Option.map_eq_some_iff.mp h
    exact nomatch h
  | openApp | login | signOut => exact absurd h List.not_mem_nil

/-- **The figures of the lines.** In any orderly run every line of every order
shows `0.00` per cent exactly when nothing of it has been dispatched, and `100.00`
exactly when all of it has. -/
theorem percent_shown (showDouble : ℚ → String) (as : List MartAction) (s : MartState)
    (hC : Runs.Meets martStep Orderly .empty as) (hrun : Runs.run martStep .empty as = some s)
    (key : String) (m : OrderCartModel)
    (hm : (s.orders key).bind OrderCartModel.fromMap = some m) (e : OrderModel)
    (he : e ∈ m.items) :
    (e.percent showDouble = "0.00" ↔ e.dispatched.toInt = 0)
      ∧ (e.percent showDouble = "100.00" ↔ e.dispatched = e.quantity) := by
  obtain ⟨t, ht, h⟩ := isSimulation.run Reflects.empty hC hrun
  obtain ⟨m₀, -, -, hledger, hwithin, hentries⟩ := h.order_of hm
  have hlines : t.Each (fun i => 0 < i.pieces ∧ i.pieces ≤ 9999) := by
    refine Mart.each_run (fun a ha c i hput => ?_) ht
    obtain ⟨s', a', ha'⟩ := Runs.exists_of_mem_trace ha
    exact pieces_of_mem_martEvents (hput ▸ ha')
  have hentry : e.entry m.uid ∈ t.orders key := by
    rw [hentries]
    exact Multiset.mem_coe.mpr (List.mem_map_of_mem he)
  have hd := hledger.nonneg e he
  have hq : 0 < (e.entry m.uid).pieces ∧ (e.entry m.uid).pieces ≤ 9999 :=
    hlines.orders key _ hentry
  rw [e.pieces_entry hd (hwithin e he)] at hq
  exact e.percent_eq_iff showDouble hd (hwithin e he) (by omega) (by omega)

/-- The order that was bought and sent has a line. -/
theorem isSome_line_boughtAndSent :
    ((((Runs.run martStep .empty boughtAndSent).bind (fun s => s.orders "1")).bind
      OrderCartModel.fromMap).bind (fun m => m.items.head?)).isSome = true := by
  decide +kernel

/-- The law at work. -/
theorem percent_shown_boughtAndSent : ∃ s m e, Runs.run martStep .empty boughtAndSent = some s
    ∧ (s.orders "1").bind OrderCartModel.fromMap = some m ∧ e ∈ m.items
    ∧ (e.percent (fun _ => "") = "0.00" ↔ e.dispatched.toInt = 0)
    ∧ (e.percent (fun _ => "") = "100.00" ↔ e.dispatched = e.quantity) := by
  have hrun := (Option.some_get isSome_boughtAndSent).symm
  obtain ⟨e, he⟩ := Option.isSome_iff_exists.mp isSome_line_boughtAndSent
  obtain ⟨m, hm, he⟩ := Option.bind_eq_some_iff.mp he
  rw [hrun, Option.bind_some] at hm
  exact ⟨_, m, e, hrun, hm, List.mem_of_mem_head? he,
    percent_shown _ _ _ (by decide +kernel) hrun "1" m hm e (List.mem_of_mem_head? he)⟩

/-! ## What an order costs -/

/-- **`price += p`**: an integer is converted first. -/
def addPrice (price : ℚ) (p : Number) : ℚ :=
  match p with
  | .int n => binary64.round (price + binary64.round n.toInt)
  | .double q => binary64.round (price + q)

section Print

variable (print : Value → String) (showDouble : ℚ → String)

/-- **`productPriceById`**, the price as it is held. -/
def productPriceByIdRounded (products : Collection) (productId : String) : Option Number :=
  ((products productId).bind (ProductModel.fromMapRounded print)).map ProductModel.price

/-- **`calculateGrandTotal`**, as it is computed and shown. -/
def calculateGrandTotalRounded (products : Collection) (m : OrderCartModel) : Option String :=
  let price : Option ℚ := m.items.foldlM (fun price o => do
    let p ← productPriceByIdRounded print products o.productId
    return addPrice price (p.timesQuantity o.quantity)) 0
  price.map (fun price => toStringAsFixed showDouble price 2)

end Print

section Total

variable {print : Value → String} {showDouble : ℚ → String} {products : Collection}
  {price : OrderModel → Number}

/-- A price that is read is 0 or a double. -/
theorem productPriceByIdRounded_eq {productId : String} {p : Number}
    (h : productPriceByIdRounded print products productId = some p) :
    p = .int 0 ∨ ∃ q, p = .double (binary64.round q) := by
  obtain ⟨m, hm, rfl⟩ := Option.map_eq_some_iff.mp h
  obtain ⟨doc, -, hm⟩ := Option.bind_eq_some_iff.mp hm
  exact price_of_fromMapRounded hm

/-- **What a line adds**: a double that is a rounding off. -/
theorem timesQuantity_spec {p : Number} (hp : p = .int 0 ∨ ∃ q, p = .double (binary64.round q))
    {quantity : Int64} (hq : |quantity.toInt| ≤ 2 ^ 53) (s : ℚ) :
    addPrice s (p.timesQuantity quantity)
        = binary64.round (s + binary64.round (p.toRat * quantity.toInt))
      ∧ binary64.IsMultiple (p.toRat * quantity.toInt) := by
  rcases hp with rfl | ⟨q, rfl⟩
  · have hzero : (Number.int 0).timesQuantity quantity = .int 0 := congrArg Number.int Int64.zero_mul
    rw [hzero]
    show binary64.round (s + binary64.round ((0 : Int64).toInt : ℚ))
        = binary64.round (s + binary64.round (((0 : Int64).toInt : ℚ) * quantity.toInt))
      ∧ binary64.IsMultiple (((0 : Int64).toInt : ℚ) * quantity.toInt)
    rw [Int64.toInt_zero, Int.cast_zero, zero_mul]
    exact ⟨rfl, 0, by rw [Int.cast_zero, zero_mul]⟩
  · have hmultiple := (binary64.isRepresentable_round q).isMultiple.mul_intCast quantity.toInt
    refine ⟨?_, hmultiple⟩
    show binary64.round (s + binary64.round (binary64.round q * binary64.round quantity.toInt)) = _
    rw [round_binary64_intCast hq]
    rfl

/-- The lines of an order, as doubles and as they are. -/
def totalTerms (price : OrderModel → Number) (items : List OrderModel) : List (ℚ × ℚ) :=
  items.map (fun o => (binary64.round ((price o).toRat * o.quantity.toInt),
    (price o).toRat * o.quantity.toInt))

/-- **The total is a rounded sum.** -/
theorem foldlM_grandTotalRounded {items : List OrderModel}
    (h : ∀ o ∈ items, productPriceByIdRounded print products o.productId = some (price o))
    (hq : ∀ o ∈ items, |o.quantity.toInt| ≤ 2 ^ 53) (s : ℚ) :
    items.foldlM (fun price o => do
        let p ← productPriceByIdRounded print products o.productId
        return addPrice price (p.timesQuantity o.quantity)) s
      = some (binary64.sumRounded ((totalTerms price items).map Prod.fst) s) := by
  induction items generalizing s with
  | nil => rfl
  | cons o items ih =>
    obtain ⟨ho, h⟩ := List.forall_mem_cons.mp h
    obtain ⟨hqo, hq⟩ := List.forall_mem_cons.mp hq
    rw [List.foldlM_cons, ho]
    show (items.foldlM _ (addPrice s _) : Option ℚ) = _
    rw [(timesQuantity_spec (productPriceByIdRounded_eq ho) hqo s).1, ih h hq]
    rfl

/-- A number of whole units shows zeros after the point. -/
theorem fixedText_two_mul (n : ℕ) : fixedText 2 (n * 100) = Nat.toDigits 10 n ++ ['.', '0', '0'] := by
  have hdiv : n * 100 / 10 ^ 2 = n := Nat.mul_div_cancel n (by decide)
  have hmod : n * 100 % 10 ^ 2 = 0 := Nat.mul_mod_left n 100
  rw [fixedText, if_neg (by decide), hdiv, hmod]
  rfl

/-- **Whole prices are added exactly.** For every order whose prices are whole
numbers that add up to no more than `2 ^ 53`, in whatever order its lines stand,
the total is shown as the sum, with two zeros after the point. -/
theorem grand_total_whole (print : Value → String) (showDouble : ℚ → String)
    (products : Collection) (m : OrderCartModel) (price : OrderModel → Number)
    (whole : OrderModel → ℕ)
    (h : ∀ o ∈ m.items, productPriceByIdRounded print products o.productId = some (price o))
    (hwhole : ∀ o ∈ m.items, (price o).toRat = whole o ∧ 0 ≤ o.quantity.toInt
      ∧ o.quantity.toInt ≤ 2 ^ 53)
    (hsize : (m.items.map (fun o => whole o * o.quantity.toInt.toNat)).sum ≤ 2 ^ 53) :
    calculateGrandTotalRounded print showDouble products m
      = some (toString (m.items.map (fun o => whole o * o.quantity.toInt.toNat)).sum ++ ".00") := by
  have hterm : ∀ o ∈ m.items, (price o).toRat * o.quantity.toInt
      = ((whole o * o.quantity.toInt.toNat : ℕ) : ℚ) := by
    intro o ho
    obtain ⟨hprice, hq, -⟩ := hwhole o ho
    rw [hprice, Nat.cast_mul, ← Int.cast_natCast (o.quantity.toInt.toNat), Int.toNat_of_nonneg hq]
  have hterms : (totalTerms price m.items).map Prod.fst
      = (m.items.map (fun o => whole o * o.quantity.toInt.toNat)).map (fun n : ℕ => (n : ℚ)) := by
    rw [totalTerms, List.map_map, List.map_map]
    refine List.map_congr_left (fun o ho => ?_)
    have hle := List.single_le_sum (fun _ _ => Nat.zero_le _) _
      (List.mem_map_of_mem (f := fun o => whole o * o.quantity.toInt.toNat) ho)
    show binary64.round ((price o).toRat * o.quantity.toInt) = _
    rw [hterm o ho, ← Int.cast_natCast, round_binary64_intCast (by rw [Nat.abs_cast]; omega)]
    rfl
  have htotal := foldlM_grandTotalRounded h
    (fun o ho => abs_le.mpr ⟨by have := (hwhole o ho).2.1; omega, (hwhole o ho).2.2⟩) 0
  rw [hterms] at htotal
  generalize m.items.map (fun o => whole o * o.quantity.toInt.toNat) = ns at htotal hsize ⊢
  have hsum (ns : List ℕ) : (ns.map (fun n : ℕ => (n : ℚ))).sum = ((ns.sum : ℕ) : ℚ) := by
    induction ns with
    | nil => rfl
    | cons n ns ih => rw [List.map_cons, List.sum_cons, ih, List.sum_cons, Nat.cast_add]
  -- every partial sum is a whole number that a double can be
  have hexact : binary64.sumRounded (ns.map (fun n : ℕ => (n : ℚ))) 0 = ((ns.sum : ℕ) : ℚ) := by
    rw [sumRounded_eq, zero_add, hsum]
    rintro ys ⟨zs, hzs⟩
    obtain ⟨ys', zs', rfl, rfl, rfl⟩ := List.map_eq_append_iff.mp hzs.symm
    rw [List.sum_append] at hsize
    rw [zero_add, hsum, ← Int.cast_natCast]
    exact isRepresentable_binary64 (by rw [Nat.abs_cast]; omega)
  rw [hexact] at htotal
  refine (congrArg (Option.map _) htotal).trans (congrArg some ?_)
  have htext : toStringAsFixed showDouble ((ns.sum : ℕ) : ℚ) 2
      = String.ofList (fixedText 2 (ns.sum * 100)) := by
    refine (toStringAsFixed_eq_iff (Nat.cast_nonneg _) ?_ 2 _).mpr ⟨?_, ?_⟩
    · have hle : ((ns.sum : ℕ) : ℚ) ≤ 2 ^ 53 := by exact_mod_cast hsize
      linarith
    · push_cast
      linarith
    · push_cast
      linarith
  show toStringAsFixed showDouble ((ns.sum : ℕ) : ℚ) 2 = _
  rw [htext, fixedText_two_mul, Nat.toString_eq_ofList_toDigits, ← String.toList_inj]
  simp

/-- The law at work. -/
theorem grand_total_whole_onePriced :
    calculateGrandTotalRounded (fun _ => "") (fun _ => "") (onePriced 12 5 "u")
        (cartToOrder "u" ⟨0⟩ [cartLine "1" 2])
      = some (toString ([cartLine "1" 2].map (fun o => 12 * o.quantity.toInt.toNat)).sum
        ++ ".00") := by
  refine grand_total_whole (fun _ => "") (fun _ => "") (onePriced 12 5 "u")
    (cartToOrder "u" ⟨0⟩ [cartLine "1" 2]) (fun _ => .double 12) (fun _ => 12) ?_ ?_ ?_
  · decide +kernel
  · decide +kernel
  · decide +kernel

end Total
