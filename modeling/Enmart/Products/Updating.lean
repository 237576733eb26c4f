import Enmart.Base.Rounding
import Enmart.Dialogs.Saving
import Enmart.Products.PriceField
import Enmart.Products.Store

/-!
# Saving a product untouched

The dialog that updates a product shows it in four text fields, and saves what
the fields say. The quantity and the price go from the document to a number, to
a text, and back to a number – twice, once for the document and once for the
product shown behind the dialog, and not by the same functions: `tryParse` with
a 0 for a text that is none, and `parse`, which raises an exception.

Nothing is lost on the way. An integer is read back from its text, a double
from its own – that is what is asked of `showDouble` – and the 0 that stands
for a price that could not be read becomes the double 0. What the dialog has no
field for, the special prices, it does not write (`untouched_update`).

The price is rounded to a double when it is read, here as in the field it is
typed in (`pricePut_eq`).
-/

open Firestore

/-! ## What is compared -/

/-- **A double is read back from its text.** -/
def ReadsBack (showDouble : ℚ → String) : Prop :=
  ∀ q, binary64.round q = q → (doubleTryParse (showDouble q)).map binary64.round = some q

/-- **Products are the same** where all their fields are; prices are compared as
numbers. -/
structure ProductModel.Same (m m' : ProductModel) : Prop where
  id : m.id = m'.id
  code : m.code = m'.code
  material : m.material = m'.material
  quantity : m.quantity = m'.quantity
  price : m.price.toRat = m'.price.toRat
  specialUsers : m.specialUsers = m'.specialUsers

/-! ## The dialog -/

/-- **The texts the fields begin with.** -/
def NewItemDialog.initState (showDouble : ℚ → String) : Option ProductModel → ItemFields
  | none => ⟨"", "", "", ""⟩
  | some copyOf =>
    { code := copyOf.code
      material := copyOf.material
      quantity := toString copyOf.quantity.toInt
      price := String.ofList (priceText showDouble copyOf.price) }

/-- What a save leaves: the documents, the product shown behind the dialog, and
whether it ended without an exception. -/
structure SaveOutcome where
  products : Collection
  copyOf : ProductModel
  normal : Bool

/-- **A save of the dialog that updates a product.** The document of a product
that is not there cannot be updated. -/
def NewItemDialog.saveUpdate (products : Collection) (copyOf : ProductModel) (now : DateTime)
    (f : ItemFields) : SaveOutcome :=
  if f.HasEmpty then ⟨products, copyOf, true⟩
  else
    match productStep products (.update (f.product (some copyOf) now).rounded) with
    | none => ⟨products, copyOf, false⟩
    | some products =>
      let copyOf := { copyOf with code := f.code, material := f.material }
      -- `double.parse` and `int.parse`
      match doubleTryParse f.price with
      | none => ⟨products, copyOf, false⟩
      | some price =>
        let copyOf := { copyOf with price := (Number.double price).rounded }
        match intTryParse f.quantity with
        | none => ⟨products, copyOf, false⟩
        | some quantity => ⟨products, { copyOf with quantity := quantity }, true⟩

/-- **A save is a run of the dialog's handler**: it ends without an exception
when that does, and leaves the documents as the request of the handler does. -/
theorem NewItemDialog.saveUpdate_exec (products : Collection) (copyOf : ProductModel)
    (now : DateTime) (f : ItemFields) {o : Handler.Outcome SaveDialog ProductModel}
    (ho : (donePressed (some copyOf) now f).exec (fun _ => (products copyOf.id).isSome)
      SaveDialog.opened = o) :
    (saveUpdate products copyOf now f).normal = o.normal
      ∧ (saveUpdate products copyOf now f).products
        = o.landed.foldl (fun ps m => (productStep ps (.update m.rounded)).getD ps) products := by
  subst ho
  unfold saveUpdate donePressed
  by_cases hempty : f.HasEmpty
  · rw [if_pos hempty, if_pos hempty]
    exact ⟨rfl, rfl⟩
  · rw [if_neg hempty, if_neg hempty]
    cases hdoc : products copyOf.id with
    | none =>
      have hstep : productStep products (.update (f.product (some copyOf) now).rounded) = none :=
        Option.map_eq_none_iff.mpr hdoc
      rw [hstep]
      exact ⟨rfl, rfl⟩
    | some doc =>
      have hstep : productStep products (.update (f.product (some copyOf) now).rounded)
          = some (Function.update products copyOf.id
            (some (updateItem doc (f.product (some copyOf) now).rounded))) :=
        Option.map_eq_some_iff.mpr ⟨doc, hdoc, rfl⟩
      rw [hstep]
      cases hprice : doubleTryParse f.price with
      | none => exact ⟨rfl, (congrArg (Option.getD · products) hstep).symm⟩
      | some price =>
        cases hquantity : intTryParse f.quantity with
        | none => exact ⟨rfl, (congrArg (Option.getD · products) hstep).symm⟩
        | some quantity => exact ⟨rfl, (congrArg (Option.getD · products) hstep).symm⟩

/-- **A save changes nothing**: it ends without an exception, the document of
the product is read as the product shown, which is the same as before, and no
other document has changed. -/
structure ChangesNothing (print : Value → String) (products : Collection) (m : ProductModel)
    (o : SaveOutcome) : Prop where
  normal : o.normal = true
  decodes : (o.products m.id).bind (ProductModel.fromMapRounded print) = some o.copyOf
  same : o.copyOf.Same m
  others : ∀ k, k ≠ m.id → o.products k = products k

section Untouched

variable {print : Value → String} {showDouble : ℚ → String} {products : Collection}
  {doc : Fields} {m : ProductModel}

/-! ## The price, from the document to the field and back -/

/-- **The number in the price field is the price.** -/
theorem parse_priceText (hshow : ReadsBack showDouble)
    (hm : ProductModel.fromMapRounded print doc = some m) :
    (doubleTryParse (String.ofList (priceText showDouble m.price))).map binary64.round
      = some m.price.toRat := by
  rcases price_of_fromMapRounded hm with hprice | ⟨q, hprice⟩
  · have hzero : doubleTryParse (String.ofList ['0']) = some 0 := by decide +kernel
    rw [hprice, show priceText showDouble (.int 0) = ['0'] from rfl, hzero, Option.map_some,
      FloatFormat.round_zero]
    rfl
  · rw [hprice]
    show (doubleTryParse (String.ofList (showDouble _).toList)).map binary64.round = some _
    rw [String.ofList_toList]
    exact hshow _ (binary64.round_round q)

/-! ## The document after a save -/

/-- **An update is read as what it wrote**, with the special prices that were
there. -/
theorem fromMapRounded_updateItem (hm : ProductModel.fromMapRounded print doc = some m)
    (p : ProductModel) :
    ProductModel.fromMapRounded print (updateItem doc p)
      = some { p with
          price := .double (binary64.round p.price.toRat)
          specialUsers := m.specialUsers } := by
  obtain ⟨m₀, hm₀, rfl⟩ := Option.map_eq_some_iff.mp hm
  obtain ⟨-, -, hspecial, -⟩ := ProductModel.fromMap_eq_some_iff.mp hm₀
  have hread : ProductModel.fromMap print (updateItem doc p)
      = some { p with price := .double p.price.toRat, specialUsers := m₀.specialUsers } := by
    refine ProductModel.fromMap_eq_some_iff.mpr ⟨?_, ?_, ?_, ?_, ?_, ?_⟩
    · rw [get?_updateItem]
      rfl
    · rw [get?_updateItem]
      exact parseQuantity_int p.quantity
    · rw [specialUsers_updateItem]
      exact hspecial
    · rw [get?_updateItem]
      rfl
    · rw [get?_updateItem]
      rfl
    · rw [get?_updateItem]
      show ((tryParsePrice (some p.price.toValue)).map Number.double).getD (.int 0) = _
      rw [tryParsePrice_toValue]
      rfl
  rw [ProductModel.fromMapRounded, hread]
  rfl

/-- No field the dialog begins with is empty. -/
theorem not_hasEmpty_initState (hshow : ReadsBack showDouble)
    (hm : ProductModel.fromMapRounded print doc = some m) (hcode : m.code ≠ "")
    (hmaterial : m.material ≠ "") :
    ¬ (NewItemDialog.initState showDouble (some m)).HasEmpty := by
  rintro (h | h | h | h)
  · exact hcode h
  · exact hmaterial h
  · have hquantity : toString m.quantity.toInt = "" := h
    have hread := intTryParse_toString m.quantity
    rw [hquantity, show intTryParse "" = none from rfl] at hread
    exact nomatch hread
  · have hprice : String.ofList (priceText showDouble m.price) = "" := h
    have hread := parse_priceText hshow hm
    rw [hprice, show doubleTryParse "" = none from rfl] at hread
    exact nomatch hread

/-- The product that is put, of fields whose numbers are numbers. -/
theorem ItemFields.rounded_product {f : ItemFields} {quantity : Int64} {q : ℚ}
    (hquantity : intTryParse f.quantity = some quantity) (hprice : doubleTryParse f.price = some q)
    (copyOf : ProductModel) (now : DateTime) :
    (f.product (some copyOf) now).rounded
      = ⟨copyOf.id, f.code, f.material, quantity, .double (binary64.round q), []⟩ := by
  show ProductModel.mk copyOf.id f.code f.material ((intTryParse f.quantity).getD 0)
    (((doubleTryParse f.price).map Number.double).getD (.int 0)).rounded [] = _
  rw [hquantity, hprice]
  rfl

/-- **The price put for the text of the field** is that of the product the dialog
puts, whatever has been typed. -/
theorem pricePut_eq {f : ItemFields} (hprice : f.price ≠ "") (copyOf : ProductModel)
    (now : DateTime) :
    pricePut f.price.toList = some (f.product (some copyOf) now).rounded.price := by
  have hne : f.price.toList ≠ [] := fun h => hprice (String.toList_eq_nil_iff.mp h)
  show (if f.price.toList = [] then none else _)
    = some (((doubleTryParse f.price).map Number.double).getD (.int 0)).rounded
  rw [if_neg hne, String.ofList_toList]
  cases doubleTryParse f.price with
  | none => rfl
  | some q => rfl

/-- **What a save of the untouched fields leaves**: the product, its price a
double. -/
theorem saveUpdate_initState (hshow : ReadsBack showDouble) (hdoc : products m.id = some doc)
    (hm : ProductModel.fromMapRounded print doc = some m) (hcode : m.code ≠ "")
    (hmaterial : m.material ≠ "") (now : DateTime) :
    NewItemDialog.saveUpdate products m now (NewItemDialog.initState showDouble (some m))
      = ⟨Function.update products m.id
          (some (updateItem doc { m with price := .double m.price.toRat })),
        { m with price := .double m.price.toRat }, true⟩ := by
  obtain ⟨q, hq, hround⟩ := Option.map_eq_some_iff.mp (parse_priceText hshow hm)
  have hprice : doubleTryParse (NewItemDialog.initState showDouble (some m)).price = some q := hq
  have hquantity : intTryParse (NewItemDialog.initState showDouble (some m)).quantity
      = some m.quantity := intTryParse_toString m.quantity
  -- the product that is put has the fields of the one shown
  have hput : ((NewItemDialog.initState showDouble (some m)).product (some m) now).rounded
      = { m with price := .double m.price.toRat, specialUsers := [] } := by
    rw [ItemFields.rounded_product hquantity hprice, hround]
    rfl
  have hupdate : productStep products
      (.update { m with price := .double m.price.toRat, specialUsers := [] })
      = some (Function.update products m.id
          (some (updateItem doc { m with price := .double m.price.toRat }))) :=
    Option.map_eq_some_iff.mpr ⟨doc, hdoc, rfl⟩
  rw [NewItemDialog.saveUpdate, if_neg (not_hasEmpty_initState hshow hm hcode hmaterial), hput,
    hupdate, hprice, hquantity, ← hround]
  rfl

/-- **Updating a product without editing changes nothing.** For every document
of a product, under the product's own id, that is read as one whose code and
material are not empty – whatever its quantity, its price and its special prices
are stored as – a save of the dialog with its fields as they were shown leaves
a document that is read as the same product, and the product shown equal to
it. -/
theorem untouched_update (print : Value → String) (showDouble : ℚ → String)
    (hshow : ReadsBack showDouble) (products : Collection) (key : String) (doc : Fields)
    (m : ProductModel) (now : DateTime) (hdoc : products key = some doc)
    (hm : ProductModel.fromMapRounded print doc = some m) (hid : m.id = key)
    (hcode : m.code ≠ "") (hmaterial : m.material ≠ "") :
    ChangesNothing print products m
      (NewItemDialog.saveUpdate products m now (NewItemDialog.initState showDouble (some m))) := by
  subst hid
  rw [saveUpdate_initState hshow hdoc hm hcode hmaterial now]
  constructor
  · rfl
  · show (Function.update products m.id (some _) m.id).bind _ = _
    rw [Function.update_self, Option.bind_some, fromMapRounded_updateItem hm]
    show some { m with price := Number.double (binary64.round m.price.toRat) } = _
    rw [round_price hm]
  · exact ⟨rfl, rfl, rfl, rfl, rfl, rfl⟩
  · exact fun k hk => Function.update_of_ne hk ..

end Untouched

/-! ## A text for every double -/

/-- The text of a magnitude, in full: a whole number has a point and a zero, any
other an exponent. -/
def exactText (q : ℚ) : List Char :=
  if q.den = 1 then Nat.toDigits 10 q.num.natAbs ++ ['.', '0']
  else Nat.toDigits 10 (q.num.natAbs * (10 ^ q.den / q.den)) ++ 'e' :: '-' :: Nat.toDigits 10 q.den

/-- The text of a number, in full, for worked examples. -/
def showExact (q : ℚ) : String := String.ofList (if q < 0 then '-' :: exactText q else exactText q)

/-- The denominator of a double divides a power of ten. -/
theorem den_dvd_of_round_eq {q : ℚ} (h : binary64.round q = q) : q.den ∣ 10 ^ q.den := by
  obtain ⟨k, hk⟩ := (FloatFormat.round_eq_self_iff.mp h).exists_den
  have hle : k ≤ q.den := by
    rw [hk]
    exact Nat.le_of_lt Nat.lt_two_pow_self
  calc q.den = 2 ^ k := hk
    _ ∣ 2 ^ q.den := pow_dvd_pow 2 hle
    _ ∣ 10 ^ q.den := pow_dvd_pow_of_dvd (by decide) q.den

/-- The characters of the exact text of a number are those of a literal, and the
first is a digit. -/
theorem exactText_isLiteral (q : ℚ) :
    IsLiteral (exactText q) ∧ ∀ c ∈ (exactText q).head?, c ≠ '-' ∧ c ≠ '+' := by
  have hdigits (n : ℕ) : IsLiteral (Nat.toDigits 10 n) := (allDigits_toDigits n).isLiteral
  unfold exactText
  split
  · exact ⟨(hdigits _).append ((allDigits_singleton rfl).isLiteral.cons (by decide)),
      head_ne_sign (allDigits_toDigits _) (forall_head?_cons (by decide) _)⟩
  · exact ⟨(hdigits _).append (((hdigits _).cons (by decide)).cons (by decide)),
      head_ne_sign (allDigits_toDigits _) (forall_head?_cons (by decide) _)⟩

/-- **The exact text of a number is read as its magnitude.** -/
theorem doubleTryParse_exactText {q : ℚ} (h : q.den ∣ 10 ^ q.den) :
    doubleTryParse (String.ofList (exactText q)) = some |q| := by
  have habs : |q| = (q.num.natAbs : ℚ) / q.den := by
    rw [Rat.abs_def, Rat.divInt_eq_div]
    rfl
  rw [habs]
  unfold exactText
  split
  · next hone => rw [doubleTryParse_whole, hone, Nat.cast_one, div_one]
  · obtain ⟨k, hk⟩ := h
    have hquot : 10 ^ q.den / q.den = k := Nat.div_eq_of_eq_mul_right q.den_pos hk
    have hpow : (10 : ℚ) ^ q.den = q.den * k := by exact_mod_cast hk
    have hk₀ : (k : ℚ) ≠ 0 := by
      intro hzero
      rw [hzero, mul_zero] at hpow
      exact absurd hpow (by positivity)
    rw [doubleTryParse_fraction, hquot, hpow]
    push_cast
    rw [mul_div_mul_right _ _ hk₀]

/-- **Every double is read back from its text in full.** -/
theorem readsBack_showExact : ReadsBack showExact := by
  intro q hq
  have hread := doubleTryParse_exactText (den_dvd_of_round_eq hq)
  have hshow : doubleTryParse (showExact q) = some q := by
    obtain ⟨hliteral, hsign⟩ := exactText_isLiteral q
    unfold showExact
    split
    · next hneg =>
      rw [doubleTryParse_minus hliteral hsign, hread, Option.map_some, abs_of_neg hneg, neg_neg]
    · next hpos => rw [hread, abs_of_nonneg (le_of_not_gt hpos)]
  rw [hshow, Option.map_some, hq]

/-- A product whose quantity and price are stored as texts. -/
def textPriced : Fields :=
  [("code", .string "c"), ("id", .string "p"), ("material", .string "m"),
    ("price", .string "12"), ("quantity", .string " 4 "), ("specialUsers", .map [("u", .int 7)])]

/-- The law at work: the price is shown as a double, and put as one. -/
theorem untouched_update_textPriced :
    ChangesNothing (fun _ => "") (fun k => if k = "p" then some textPriced else none)
      ⟨"p", "c", "m", 4, .double 12, [⟨"u", some 7⟩]⟩
      (NewItemDialog.saveUpdate (fun k => if k = "p" then some textPriced else none)
        ⟨"p", "c", "m", 4, .double 12, [⟨"u", some 7⟩]⟩ ⟨0⟩
        (NewItemDialog.initState showExact
          (some ⟨"p", "c", "m", 4, .double 12, [⟨"u", some 7⟩]⟩))) :=
  untouched_update (fun _ => "") showExact readsBack_showExact _ "p" textPriced _ ⟨0⟩ rfl
    (by decide +kernel) rfl (by decide) (by decide)
