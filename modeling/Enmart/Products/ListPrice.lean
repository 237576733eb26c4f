import Enmart.Orders.Pricing
import Enmart.Products.SpecialPrices

/-!
# The price in the product list

A user sees the price of a product in two places. `OrderCard`, in the cart,
takes the user's special price whenever the product has one. The product list
takes it when it is not 0: there 0 is how no special price is spelled.

A special price of 0 can be stored – the dialog that sets one begins at 0 – so
the two quote different prices exactly for a product that has one, its base
price being another (`quotes_agree_iff`).

The prices compared are numbers, a base price the double that is read of it:
the list prints it without its fraction and the card prints two digits of it.
-/

open Firestore

/-- The special price the product list reads, 0 where there is none. -/
def ProductModel.sPrice (model : ProductModel) (uid : String) : Int64 :=
  match model.specialUsers.filter (fun e => e.userId = uid) with
  | [] => 0
  | e :: _ => e.price.getD 0

/-- **The price the product list presents**: the special price where one is
shown, the base price crossed out, or the base price. -/
def ProductModel.listPrice (model : ProductModel) (uid : String) : Number :=
  if model.sPrice uid = 0 then model.price else .int (model.sPrice uid)

/-- The base price a document has, as it is read. -/
def basePrice (doc : Fields) : ℚ :=
  ((tryParsePrice (doc.get? "price")).map binary64.round).getD 0

section Print

variable (print : Value → String)

/-- **The list and the cart quote a user one price** for the product a document
stands for. -/
def QuotesAgree (doc : Fields) (uid : String) : Prop :=
  ∃ m, ProductModel.fromMapRounded print doc = some m
    ∧ (m.listPrice uid).toRat = (m.cardPrice uid).toRat

variable {print} {doc : Fields} {m : ProductModel}

/-- The base price of a product is the one its document has. -/
theorem basePrice_of_fromMap (hm : ProductModel.fromMapRounded print doc = some m) :
    m.price.toRat = basePrice doc := by
  obtain ⟨m₀, hm₀, rfl⟩ := Option.map_eq_some_iff.mp hm
  obtain ⟨-, -, -, -, -, hprice⟩ := ProductModel.fromMap_eq_some_iff.mp hm₀
  rw [ProductModel.rounded, ← hprice, basePrice]
  cases tryParsePrice (doc.get? "price") with
  | none => rfl
  | some q => rfl

/-- A special price set leaves the base price. -/
theorem basePrice_setSpecialPrice (doc : Fields) (model : SpecialPriceModel) :
    basePrice (setSpecialPrice doc model) = basePrice doc := by
  rw [basePrice, get?_setSpecialPrice, if_neg (by decide)]
  rfl

/-- The special prices of a user, as they are stored. -/
theorem IsProductDoc.filter_rounded (h : IsProductDoc print doc)
    (hm : ProductModel.fromMapRounded print doc = some m) (uid : String) :
    m.specialUsers.filter (fun e => e.userId = uid) = entryOf uid (storedPrice doc uid) := by
  obtain ⟨m₀, hm₀, rfl⟩ := Option.map_eq_some_iff.mp hm
  exact h.filter_specialUsers hm₀ uid

/-- What the list presents, from the price that is stored. -/
theorem IsProductDoc.toRat_listPrice (h : IsProductDoc print doc)
    (hm : ProductModel.fromMapRounded print doc = some m) (uid : String) :
    (m.listPrice uid).toRat
      = if (storedPrice doc uid).getD 0 = 0 then basePrice doc
        else (((storedPrice doc uid).getD 0).toInt : ℚ) := by
  have hs : m.sPrice uid = (storedPrice doc uid).getD 0 := by
    rw [ProductModel.sPrice, h.filter_rounded hm uid]
    cases storedPrice doc uid with
    | none => rfl
    | some n => rfl
  rw [ProductModel.listPrice, hs, ← basePrice_of_fromMap hm]
  split
  · rfl
  · rfl

/-- What the card presents, from the price that is stored. -/
theorem IsProductDoc.toRat_cardPrice (h : IsProductDoc print doc)
    (hm : ProductModel.fromMapRounded print doc = some m) (uid : String) :
    (m.cardPrice uid).toRat
      = ((storedPrice doc uid).map (fun n => (n.toInt : ℚ))).getD (basePrice doc) := by
  rw [ProductModel.cardPrice, h.filter_rounded hm uid, ← basePrice_of_fromMap hm]
  cases storedPrice doc uid with
  | none => rfl
  | some n => rfl

/-- Where one product is read, the quotes agree if its prices do. -/
theorem quotesAgree_iff_of_fromMap (hm : ProductModel.fromMapRounded print doc = some m) (uid : String) :
    QuotesAgree print doc uid ↔ (m.listPrice uid).toRat = (m.cardPrice uid).toRat := by
  constructor
  · rintro ⟨m', hm', h⟩
    obtain rfl := Option.some.inj (hm.symm.trans hm')
    exact h
  · intro h
    exact ⟨m, hm, h⟩

/-- The quotes agree on a product unless its stored special price is 0 and its
base price is not. -/
theorem IsProductDoc.quotesAgree_iff (h : IsProductDoc print doc) (uid : String) :
    QuotesAgree print doc uid ↔ (storedPrice doc uid = some 0 → basePrice doc = 0) := by
  obtain ⟨m₀, hm₀⟩ := Option.isSome_iff_exists.mp h.decodes
  have hm : ProductModel.fromMapRounded print doc = some m₀.rounded := by
    rw [ProductModel.fromMapRounded, hm₀]
    rfl
  rw [quotesAgree_iff_of_fromMap hm, h.toRat_listPrice hm, h.toRat_cardPrice hm]
  cases storedPrice doc uid with
  | none => exact iff_of_true rfl (fun hc => absurd hc (by simp))
  | some n =>
    show ((if n = 0 then basePrice doc else (n.toInt : ℚ)) = n.toInt)
      ↔ (some n = some 0 → basePrice doc = 0)
    by_cases hn : n = 0
    · subst hn
      rw [if_pos rfl, Int64.toInt_zero, Int.cast_zero]
      exact ⟨fun hb _ => hb, fun hb => hb rfl⟩
    · rw [if_neg hn]
      exact iff_of_true rfl (fun hc => absurd (Option.some.inj hc) hn)

/-- **The list and the cart quote one price**, for the product of any document
and any user, exactly unless the special price stored is 0 and the base price is
not; and so after any special price is stored or removed. -/
theorem quotes_agree_iff (h : IsProductDoc print doc) (uid : String) :
    (QuotesAgree print doc uid ↔ (storedPrice doc uid = some 0 → basePrice doc = 0))
      ∧ ∀ p : Option Int64, QuotesAgree print (setSpecialPrice doc ⟨uid, p⟩) uid
          ↔ (p = some 0 → basePrice doc = 0) := by
  refine ⟨h.quotesAgree_iff uid, fun p => ?_⟩
  rw [(h.setSpecialPrice ⟨uid, p⟩).quotesAgree_iff uid, storedPrice_setSpecialPrice,
    basePrice_setSpecialPrice]
  show (Function.update (storedPrice doc) uid p uid = some 0 → _) ↔ _
  rw [Function.update_self]

end Print

/-- A product of price 5, for worked examples. -/
def fivePriced : Fields := (ProductModel.mk "p" "c" "m" 1 (.int 5) []).toMap

/-- The document of the product of price 5 is one of a product. -/
theorem isProductDoc_fivePriced : IsProductDoc (fun _ => "") fivePriced where
  decodes := by rw [fivePriced, ProductModel.fromMap_toMap]; rfl
  sorted := List.Pairwise.nil

/-- The law at work. -/
theorem quotes_agree_iff_five :
    (QuotesAgree (fun _ => "") fivePriced "u"
        ↔ (storedPrice fivePriced "u" = some 0 → basePrice fivePriced = 0))
      ∧ ∀ p : Option Int64, QuotesAgree (fun _ => "") (setSpecialPrice fivePriced ⟨"u", p⟩) "u"
          ↔ (p = some 0 → basePrice fivePriced = 0) :=
  quotes_agree_iff isProductDoc_fivePriced "u"

/-- **A special price of 0 is free in the cart and at the base price in the
list.** -/
theorem zero_price_quoted_twice :
    ¬ QuotesAgree (fun _ => "") (setSpecialPrice fivePriced ⟨"u", some 0⟩) "u" := by
  rintro ⟨m, hm, h⟩
  have hread : ProductModel.fromMapRounded (fun _ => "") (setSpecialPrice fivePriced ⟨"u", some 0⟩)
      = some (ProductModel.mk "p" "c" "m" 1 (.double 5) [⟨"u", some 0⟩]) := by decide +kernel
  obtain rfl := Option.some.inj (hread.symm.trans hm)
  exact absurd h (by decide +kernel)
