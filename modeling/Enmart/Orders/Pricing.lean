import Enmart.Base.RoundingError
import Enmart.Cart.Checkout
import Enmart.Firestore.Write
import Enmart.Models.Product

/-!
# What an order costs

The price of an order is shown twice, by two paths that share nothing but the
catalogue. `OrderCard` shows each line at the price of the account that is
looking, its special price where it has one; `calculateGrandTotal` adds up the
base prices of all lines. So the total is the sum of the lines the owner sees
exactly when the owner's discounts cancel (`grand_total_iff`); there prices are
exact, and nothing is rounded before it is printed.

Two accounts see the same line at the same prices exactly when their special
prices for its product agree, the base price standing in where there is none
(`card_price_iff`). There prices are what is computed. A special price is an
integer, and times the quantity it wraps; a base price is a double, and is
rounded. So one that stands in for the other must be the same number, and the
line must cost what a word and a double can both hold.
-/

open Firestore

/-- A catalogue of one product, with a special price for one user, for worked
examples. -/
def onePriced (price special : Int64) (uid : String) : Collection :=
  Function.update (fun _ => none) "p" (some [("code", .string "c"), ("id", .string "p"),
    ("material", .string "m"), ("price", .int price), ("quantity", .int 1),
    ("specialUsers", .map [(uid, .int special)])])

section Print

variable (print : Value → String)

/-! ## Reading the catalogue -/

/-- **`productById`**: there is no product without a document to decode. -/
def productById (products : Collection) (productId : String) : Option ProductModel :=
  (products productId).bind (ProductModel.fromMap print)

/-- **`productPriceById`**, the base price. -/
def productPriceById (products : Collection) (productId : String) : Option Number :=
  (productById print products productId).map ProductModel.price

/-! ## The two prices of an order -/

/-- **`calculateGrandTotal`**: the base prices of the lines, each times the
quantity, added up one after the other. -/
def calculateGrandTotal (products : Collection) (m : OrderCartModel) : Option ℚ :=
  m.items.foldlM (fun price o => do
    let p ← productPriceById print products o.productId
    return price + p.toRat * o.quantity.toInt) 0

/-- The special price a user has for a product; one that is null counts as
0. -/
def ProductModel.specialPrice (model : ProductModel) (uid : String) : Option Int64 :=
  (model.specialUsers.filter (fun e => e.userId = uid)).head?.map (fun e => e.price.getD 0)

/-- The price `OrderCard` gives a product: the special price of the account
that is looking, or the base price. -/
def ProductModel.cardPrice (model : ProductModel) (uid : String) : Number :=
  match model.specialUsers.filter (fun e => e.userId = uid) with
  | [] => model.price
  | e :: _ => .int (e.price.getD 0)

/-- The prices on a card. -/
structure CardPrices where
  /-- The price of one piece. -/
  unit : ℚ
  /-- The price of the line. -/
  line : ℚ
  deriving DecidableEq, Repr

/-- **`OrderCard`**: the prices of a line as an account sees them, taken as exact
numbers. -/
def orderCard (products : Collection) (uid : String) (e : OrderModel) : Option CardPrices :=
  (productById print products e.productId).map (fun model => {
    unit := (model.cardPrice uid).toRat
    line := (model.cardPrice uid).toRat * e.quantity.toInt })

/-- The sum of the prices of the lines, as an account sees them. -/
def linesTotal (products : Collection) (uid : String) (items : List OrderModel) : Option ℚ :=
  (items.mapM (orderCard print products uid)).map (fun cards => (cards.map CardPrices.line).sum)

/-- What a line costs an account less than its base price. -/
def discount (products : Collection) (uid : String) (o : OrderModel) : ℚ :=
  match productById print products o.productId with
  | some model =>
    match model.specialPrice uid with
    | some p => (model.price.toRat - p.toInt) * o.quantity.toInt
    | none => 0
  | none => 0

/-- **The owner's discounts cancel**, over the lines whose product has a special
price for the owner. -/
def DiscountsCancel (products : Collection) (m : OrderCartModel) : Prop :=
  (m.items.map (discount print products m.uid)).sum = 0

/-- The price on a card is the special price, the base price standing in. -/
theorem ProductModel.toRat_cardPrice (model : ProductModel) (uid : String) :
    (model.cardPrice uid).toRat
      = ((model.specialPrice uid).map (fun p => (p.toInt : ℚ))).getD model.price.toRat := by
  unfold cardPrice specialPrice
  cases model.specialUsers.filter (fun e => e.userId = uid) with
  | nil => rfl
  | cons e es => rfl

section Total

variable {print} {products : Collection} {model : OrderModel → ProductModel}

/-- The base prices add up to their sum. -/
theorem foldlM_grandTotal {items : List OrderModel}
    (h : ∀ o ∈ items, productById print products o.productId = some (model o)) (price : ℚ) :
    items.foldlM (fun price o => do
        let p ← productPriceById print products o.productId
        return price + p.toRat * o.quantity.toInt) price
      = some (price
        + (items.map (fun o => (model o).price.toRat * o.quantity.toInt)).sum) := by
  induction items generalizing price with
  | nil =>
    show some price = some (price + 0)
    rw [add_zero]
  | cons o items ih =>
    have ho := h o (List.mem_cons_self ..)
    have hitems := ih (fun o' ho' => h o' (List.mem_cons_of_mem o ho'))
      (price + (model o).price.toRat * o.quantity.toInt)
    rw [List.foldlM_cons, productPriceById, ho, List.map_cons, List.sum_cons, ← add_assoc]
    exact hitems

/-- The prices on the cards add up to their sum. -/
theorem linesTotal_eq {items : List OrderModel}
    (h : ∀ o ∈ items, productById print products o.productId = some (model o)) (uid : String) :
    linesTotal print products uid items
      = some (items.map (fun o => ((model o).cardPrice uid).toRat * o.quantity.toInt)).sum := by
  have hcards : items.mapM (orderCard print products uid) = some (items.map (fun o =>
      { unit := ((model o).cardPrice uid).toRat
        line := ((model o).cardPrice uid).toRat * o.quantity.toInt })) := by
    refine mapM_of_forall (fun o ho => ?_)
    rw [orderCard, h o ho]
    rfl
  rw [linesTotal, hcards, Option.map_some, List.map_map]
  rfl

/-- A line costs the base price less the discount. -/
theorem price_eq_cardPrice_add_discount {o : OrderModel}
    (h : productById print products o.productId = some (model o)) (uid : String) :
    (model o).price.toRat * o.quantity.toInt
      = ((model o).cardPrice uid).toRat * o.quantity.toInt + discount print products uid o := by
  rw [ProductModel.toRat_cardPrice]
  rcases hs : (model o).specialPrice uid with _ | p
  · simp only [discount, h, hs]
    show _ = (model o).price.toRat * o.quantity.toInt + 0
    rw [add_zero]
  · simp only [discount, h, hs]
    show _ = (p.toInt : ℚ) * o.quantity.toInt
      + ((model o).price.toRat - p.toInt) * o.quantity.toInt
    ring

end Total

/-- **When the grand total is the sum of the lines.** Of any order and any
catalogue with its products, the grand total is the sum of the prices the cards
show the owner – exactly when the differences between the base price and the
owner's special price, each times the quantity, cancel over the lines whose
product has a special price for the owner. -/
theorem grand_total_iff (products : Collection) (m : OrderCartModel)
    (hproducts : ∀ o ∈ m.items, (productById print products o.productId).isSome) :
    calculateGrandTotal print products m = linesTotal print products m.uid m.items
      ↔ DiscountsCancel print products m := by
  have hmodel : ∃ model : OrderModel → ProductModel,
      ∀ o ∈ m.items, productById print products o.productId = some (model o) := by
    have hex : ∀ o, ∃ model : ProductModel, o ∈ m.items →
        productById print products o.productId = some model := by
      intro o
      by_cases ho : o ∈ m.items
      · obtain ⟨model, hm⟩ := Option.isSome_iff_exists.mp (hproducts o ho)
        exact ⟨model, fun _ => hm⟩
      · exact ⟨⟨"", "", "", 0, .int 0, []⟩, fun hc => absurd hc ho⟩
    exact ⟨fun o => (hex o).choose, fun o ho => (hex o).choose_spec ho⟩
  obtain ⟨model, h⟩ := hmodel
  have hsum : (m.items.map (fun o => (model o).price.toRat * o.quantity.toInt)).sum
      = (m.items.map (fun o => ((model o).cardPrice m.uid).toRat * o.quantity.toInt)).sum
        + (m.items.map (discount print products m.uid)).sum := by
    rw [← List.sum_map_add]
    exact congrArg List.sum (List.map_congr_left
      (fun o ho => price_eq_cardPrice_add_discount (h o ho) m.uid))
  rw [calculateGrandTotal, foldlM_grandTotal h, linesTotal_eq h, Option.some.injEq, zero_add,
    hsum, DiscountsCancel]
  exact add_eq_left

end Print

/-- The law at work: a special price that is the base price. -/
theorem grand_total_iff_same :
    calculateGrandTotal (fun _ => "") (onePriced 5 5 "u")
        (cartToOrder "u" ⟨1000⟩ [cartLine "1" 10])
        = linesTotal (fun _ => "") (onePriced 5 5 "u") "u" [cartLine "1" 10]
      ↔ DiscountsCancel (fun _ => "") (onePriced 5 5 "u")
        (cartToOrder "u" ⟨1000⟩ [cartLine "1" 10]) :=
  grand_total_iff (fun _ => "") (onePriced 5 5 "u") (cartToOrder "u" ⟨1000⟩ [cartLine "1" 10])
    (by decide +kernel)

/-- **Two prices of one order**: ten pieces at 5, for an owner who pays 3. -/
theorem special_price_ignored :
    ¬ ∀ (print : Value → String) (products : Collection) (m : OrderCartModel),
      (∀ o ∈ m.items, (productById print products o.productId).isSome) →
      calculateGrandTotal print products m = linesTotal print products m.uid m.items := by
  intro h
  have htotal := h (fun _ => "") (onePriced 5 3 "u") (cartToOrder "u" ⟨1000⟩ [cartLine "1" 10])
    (by decide +kernel)
  exact absurd htotal (by decide +kernel)

/-! ## Two accounts -/

/-- **An integer and the same double, times a quantity**, come to one number
exactly where their product is an integer of 64 bits that a double can be. -/
theorem toInt_mul_eq_round_iff (p quantity : Int64) :
    ((p * quantity).toInt : ℚ) = binary64.round (p.toInt * binary64.round quantity.toInt)
      ↔ Int64.Fits (p.toInt * quantity.toInt)
        ∧ binary64.IsRepresentable ((p.toInt * quantity.toInt : ℤ) : ℚ) := by
  constructor
  · intro h
    have hfits : Int64.Fits (p.toInt * quantity.toInt) := by
      -- what is rounded is off by little, and so the product has not wrapped
      refine Int64.fits_of_abs_toInt_mul_sub_le ?_
      have hround := FloatFormat.abs_round_mul_round_sub_le (F := binary64) (x := p.toInt)
        (y := quantity.toInt) (Or.inl (FloatFormat.isMultiple_intCast (by decide) _))
        (Or.inl (by
          rw [mul_comm]
          exact (binary64.isRepresentable_round _).isMultiple.mul_intCast p.toInt))
      have hunit : binary64.unit = 1 / 2 ^ 53 := rfl
      rw [← h, hunit] at hround
      have hnn := abs_nonneg ((p.toInt : ℚ) * quantity.toInt)
      have hsmall : (1 : ℚ) / 2 ^ 53 * (2 + 1 / 2 ^ 53) ≤ 1 / 2 := by norm_num
      have hhalf : 2 * |((p * quantity).toInt : ℚ) - p.toInt * quantity.toInt|
          ≤ |(p.toInt : ℚ) * quantity.toInt| := by
        linarith [mul_le_mul_of_nonneg_right hsmall hnn]
      exact_mod_cast hhalf
    rw [Int64.toInt_mul_of_fits hfits] at h
    refine ⟨hfits, ?_⟩
    rw [h]
    exact binary64.isRepresentable_round _
  · rintro ⟨hfits, hdouble⟩
    rw [Int64.toInt_mul_of_fits hfits]
    by_cases hp0 : p.toInt = 0
    · rw [hp0, zero_mul, Int.cast_zero, zero_mul, FloatFormat.round_zero]
    · have hquantity : binary64.round quantity.toInt = quantity.toInt :=
        (FloatFormat.IsRepresentable.of_intCast_mul (by decide) hp0 hdouble).round_eq
      rw [hquantity, ← Int.cast_mul]
      exact hdouble.round_eq.symm

section Print

variable (print : Value → String)

/-- **`productById`**, the product as it is held. -/
def productByIdRounded (products : Collection) (productId : String) : Option ProductModel :=
  (products productId).bind (ProductModel.fromMapRounded print)

/-- **`OrderCard`**: the prices of a line as they are computed for an account. -/
def orderCardRounded (products : Collection) (uid : String) (e : OrderModel) :
    Option CardPrices :=
  (productByIdRounded print products e.productId).map (fun model => {
    unit := (model.cardPrice uid).toRat
    line := ((model.cardPrice uid).timesQuantity e.quantity).toRat })

/-- **A special price is the base price**, for a line of some pieces: it is the
same number, and what the line costs is an integer of 64 bits that a double can
be. -/
def ProductModel.IsBasePrice (model : ProductModel) (quantity p : Int64) : Prop :=
  (p.toInt : ℚ) = model.price.toRat ∧ Int64.Fits (p.toInt * quantity.toInt)
    ∧ binary64.IsRepresentable ((p.toInt * quantity.toInt : ℤ) : ℚ)

/-- **The special prices of two accounts agree**, the base price standing in
where there is none. -/
def ProductModel.SpecialPricesAgree (model : ProductModel) (quantity : Int64)
    (uid uid' : String) : Prop :=
  match model.specialPrice uid, model.specialPrice uid' with
  | none, none => True
  | some p, none => model.IsBasePrice quantity p
  | none, some p => model.IsBasePrice quantity p
  | some p, some p' => p = p'

variable {print}

/-- The price on a card is the special price, or else the base price. -/
theorem ProductModel.cardPrice_eq (model : ProductModel) (uid : String) :
    model.cardPrice uid = ((model.specialPrice uid).map Number.int).getD model.price := by
  unfold cardPrice specialPrice
  cases model.specialUsers.filter (fun e => e.userId = uid) with
  | nil => rfl
  | cons e es => rfl

/-- A special price shows the same prices as the base price exactly where it is
the base price. -/
theorem ProductModel.isBasePrice_iff {doc : Fields} {model : ProductModel}
    (hm : ProductModel.fromMapRounded print doc = some model) (quantity p : Int64) :
    ((Number.int p).toRat = model.price.toRat ∧ ((Number.int p).timesQuantity quantity).toRat
        = (model.price.timesQuantity quantity).toRat) ↔ model.IsBasePrice quantity p := by
  refine and_congr_right (fun hunit => ?_)
  have hunit' : (p.toInt : ℚ) = model.price.toRat := hunit
  rw [← toInt_mul_eq_round_iff]
  rcases price_of_fromMapRounded hm with hprice | ⟨q, hprice⟩
  · -- the 0 that stands for an unreadable price is an integer, too
    rw [hprice] at hunit' ⊢
    have hzero : (p.toInt : ℚ) = (0 : Int64).toInt := hunit'
    obtain rfl : p = 0 := Int64.toInt_inj.mp (by exact_mod_cast hzero)
    refine iff_of_true rfl ?_
    rw [Int64.zero_mul, Int64.toInt_zero, Int.cast_zero, zero_mul, FloatFormat.round_zero]
  · rw [hprice] at hunit' ⊢
    rw [hunit']
    rfl

/-- Two accounts are shown the same prices exactly where their special prices
agree. -/
theorem ProductModel.cardPrices_eq_iff {doc : Fields} {model : ProductModel}
    (hm : ProductModel.fromMapRounded print doc = some model) (quantity : Int64)
    (uid uid' : String) :
    ((model.cardPrice uid).toRat = (model.cardPrice uid').toRat
      ∧ ((model.cardPrice uid).timesQuantity quantity).toRat
        = ((model.cardPrice uid').timesQuantity quantity).toRat)
      ↔ model.SpecialPricesAgree quantity uid uid' := by
  rw [cardPrice_eq, cardPrice_eq, SpecialPricesAgree]
  rcases model.specialPrice uid with _ | p
  · rcases model.specialPrice uid' with _ | p'
    · exact iff_of_true ⟨rfl, rfl⟩ trivial
    · refine Iff.trans ?_ (isBasePrice_iff hm quantity p')
      exact and_congr eq_comm eq_comm
  · rcases model.specialPrice uid' with _ | p'
    · exact isBasePrice_iff hm quantity p
    · constructor
      · rintro ⟨hunit, -⟩
        have hint : (p.toInt : ℚ) = p'.toInt := hunit
        exact Int64.toInt_inj.mp (by exact_mod_cast hint)
      · rintro rfl
        exact ⟨rfl, rfl⟩

variable (print)

/-- **When the price of a line does not depend on who looks.** Of any order and
any catalogue, two accounts are shown the same prices on the cards of all lines
– exactly when for each line's product their special prices agree, the base
price standing in where there is none: as the same number, for a line whose
price a word and a double can both hold. -/
theorem card_price_iff (products : Collection) (m : OrderCartModel) (uid uid' : String) :
    (∀ e ∈ m.items, orderCardRounded print products uid e = orderCardRounded print products uid' e)
      ↔ ∀ e ∈ m.items, ∀ model ∈ productByIdRounded print products e.productId,
          model.SpecialPricesAgree e.quantity uid uid' := by
  refine forall₂_congr (fun e _ => ?_)
  rw [orderCardRounded, orderCardRounded]
  rcases hmodel : productByIdRounded print products e.productId with _ | model
  · exact iff_of_true rfl (fun _ hm => absurd hm.symm (Option.some_ne_none _))
  · obtain ⟨doc, -, hm⟩ := Option.bind_eq_some_iff.mp hmodel
    rw [Option.map_some, Option.map_some, Option.some.injEq, CardPrices.mk.injEq,
      ProductModel.cardPrices_eq_iff hm]
    constructor
    · intro hagree model' hm'
      rw [← Option.some.inj hm']
      exact hagree
    · intro hagree
      exact hagree model rfl

end Print

/-- **One line at two prices**: the owner pays 3, an administrator sees 5. -/
theorem price_for_administrator :
    ¬ ∀ (print : Value → String) (products : Collection) (m : OrderCartModel)
        (uid uid' : String), ∀ e ∈ m.items,
      orderCardRounded print products uid e = orderCardRounded print products uid' e := by
  intro h
  have hcards := h (fun _ => "") (onePriced 5 3 "u") (cartToOrder "u" ⟨1000⟩ [cartLine "1" 10])
    "u" "a" (cartLine "1" 10) (List.mem_cons_self ..)
  exact absurd hcards (by decide +kernel)
