import Enmart.Models.Order

/-!
# From cart lines to an order

A customer adds a product through `AddToCartModal`, which sets four digits
and builds a line in the cart – undispatched, its identifier the millisecond
of the tap – unless the digits spell no positive number. Checkout,
`cartToOrder`, turns the lines of the cart into one order: the same lines,
the total `calculateQuantity` adds up, and nothing delivered yet. The order's
identifier is the millisecond it is placed in.
-/

open Firestore

/-- The four counters of the modal, most significant first. -/
structure SliderCounters where
  n3 : Fin 10
  n2 : Fin 10
  n1 : Fin 10
  n0 : Fin 10
  deriving DecidableEq, Repr

namespace SliderCounters

/-- The text the counters show. -/
def text (n : SliderCounters) : String :=
  toString n.n3.val ++ toString n.n2.val ++ toString n.n1.val ++ toString n.n0.val

end SliderCounters

/-- **The line `AddToCartModal` adds**: none when the counters show no
positive number. The clock is read twice, once for the identifier and once
for the date. -/
def addToCartModal (productId : String) (n : SliderCounters)
    (now now' : DateTime) : Option OrderModel := do
  let quantity ← intTryParse n.text
  if quantity ≤ 0 then none
  else some {
    orderId := toString now.millisecondsSinceEpoch
    successAt := now'
    status := .inCart
    productId := productId
    quantity := quantity
    dispatched := 0 }

/-- **A line as the modal builds it**: in the cart, at least one piece, and
nothing dispatched. -/
structure IsCartLine (o : OrderModel) : Prop where
  status : o.status = .inCart
  quantity : 1 ≤ o.quantity.toInt
  dispatched : o.dispatched = 0

instance (o : OrderModel) : Decidable (IsCartLine o) :=
  decidable_of_iff (o.status = .inCart ∧ 1 ≤ o.quantity.toInt ∧ o.dispatched = 0)
    ⟨fun h => ⟨h.1, h.2.1, h.2.2⟩, fun h => ⟨h.status, h.quantity, h.dispatched⟩⟩

/-- A line added at the epoch, for worked examples. -/
def cartLine (orderId : String) (quantity : Int64) : OrderModel where
  orderId := orderId
  successAt := ⟨0⟩
  status := .inCart
  productId := "p"
  quantity := quantity
  dispatched := 0

/-- **What the modal adds**, if it adds a line. -/
theorem addToCartModal_eq_some {productId : String} {n : SliderCounters}
    {now now' : DateTime} {o : OrderModel} (h : addToCartModal productId n now now' = some o) :
    ∃ quantity : Int64, 1 ≤ quantity.toInt ∧
      o = ⟨toString now.millisecondsSinceEpoch, now', .inCart, productId, quantity, 0⟩ := by
  unfold addToCartModal at h
  obtain ⟨quantity, -, hq⟩ := Option.bind_eq_some_iff.mp h
  by_cases hle : quantity ≤ 0
  · rw [if_pos hle] at hq
    exact absurd hq (by simp)
  · rw [if_neg hle, Option.some.injEq] at hq
    rw [Int64.le_iff_toInt_le, Int64.toInt_zero] at hle
    exact ⟨quantity, by omega, hq.symm⟩

/-- Every line the modal adds is a cart line. -/
theorem isCartLine_of_addToCartModal {productId : String} {n : SliderCounters}
    {now now' : DateTime} {o : OrderModel}
    (h : addToCartModal productId n now now' = some o) : IsCartLine o := by
  obtain ⟨quantity, hq, rfl⟩ := addToCartModal_eq_some h
  exact ⟨rfl, hq, rfl⟩

/-- The line is of the product the modal is shown for. -/
theorem productId_of_addToCartModal {productId : String} {n : SliderCounters}
    {now now' : DateTime} {o : OrderModel}
    (h : addToCartModal productId n now now' = some o) : o.productId = productId := by
  obtain ⟨quantity, -, rfl⟩ := addToCartModal_eq_some h
  rfl

/-- The pieces the lines order, over all of them. -/
def calculateQuantity (e : List OrderModel) : Int64 :=
  e.foldl (fun amt element => amt + element.quantity) 0

/-- **The order checkout places** for the lines of a cart. -/
def cartToOrder (uid : String) (dt : DateTime) (products : List OrderModel) :
    OrderCartModel where
  status := .pending
  uid := uid
  id := toString dt.millisecondsSinceEpoch
  orderedAt := dt
  items := products
  totalQuantity := calculateQuantity products
  deliveredQuantity := 0

/-- **The total of an order is the sum of its lines**, as long as that sum
fits a word. -/
theorem toInt_calculateQuantity {e : List OrderModel}
    (h : ∀ o ∈ e, 0 ≤ o.quantity.toInt)
    (hfit : amountSum OrderModel.quantity e < 2 ^ 63) :
    (calculateQuantity e).toInt = amountSum OrderModel.quantity e := by
  have hnn := amountSum_nonneg h
  have hzero : (0 : Int64).toInt = 0 := Int64.toInt_zero
  have hsum := toInt_foldl_add (f := OrderModel.quantity) h (a := 0)
    (by omega) (by rw [hzero]; exact ⟨by omega, by omega⟩)
  rw [calculateQuantity, hsum, hzero, Int.zero_add]

/-- **A cart ready for checkout**: lines the modal built, at least one, no
two with one identifier. -/
structure Cart where
  /-- The lines, in the order they were added. -/
  products : List OrderModel
  /-- Checkout is offered on a cart that has a line. -/
  nonempty : products ≠ []
  /-- No two lines share an identifier. -/
  distinct : (products.map OrderModel.orderId).Nodup
  /-- The lines are as the modal builds them. -/
  isCartLine : ∀ o ∈ products, IsCartLine o

namespace Cart

/-- The cart of one line. -/
def single (o : OrderModel) (ho : IsCartLine o) : Cart where
  products := [o]
  nonempty := List.cons_ne_nil o []
  distinct := List.pairwise_singleton _ _
  isCartLine := fun _ hx => List.mem_singleton.mp hx ▸ ho

/-- The cart of two lines. -/
def pair (o o' : OrderModel) (hne : o.orderId ≠ o'.orderId) (ho : IsCartLine o)
    (ho' : IsCartLine o') : Cart where
  products := [o, o']
  nonempty := List.cons_ne_nil o [o']
  distinct := List.nodup_cons.mpr
    ⟨fun h => hne (List.mem_singleton.mp h), List.pairwise_singleton _ _⟩
  isCartLine := fun x hx => by
    rcases List.mem_cons.mp hx with rfl | hx
    · exact ho
    · exact List.mem_singleton.mp hx ▸ ho'

/-- The order checkout places for the cart. -/
def order (c : Cart) (uid : String) (dt : DateTime) : OrderCartModel :=
  cartToOrder uid dt c.products

/-- The pieces ordered, over all lines. -/
def pieces (c : Cart) : ℤ := amountSum OrderModel.quantity c.products

theorem quantity_nonneg (c : Cart) : ∀ o ∈ c.products, 0 ≤ o.quantity.toInt :=
  fun o ho => by have := (c.isCartLine o ho).quantity; omega

/-- A cart orders at least one piece. -/
theorem pieces_pos (c : Cart) : 0 < c.pieces := by
  obtain ⟨o, os, hos⟩ := List.exists_cons_of_ne_nil c.nonempty
  have ho := (c.isCartLine o (by rw [hos]; exact List.mem_cons_self ..)).quantity
  have hrest : 0 ≤ amountSum OrderModel.quantity os :=
    amountSum_nonneg (fun x hx => c.quantity_nonneg x
      (by rw [hos]; exact List.mem_cons_of_mem o hx))
  rw [pieces, hos, amountSum_cons]
  omega

/-- Nothing of a cart has been dispatched. -/
theorem amountSum_dispatched (c : Cart) :
    amountSum OrderModel.dispatched c.products = 0 := by
  have hzero : amountSum OrderModel.dispatched c.products
      = amountSum (fun _ => (0 : Int64)) c.products :=
    amountSum_congr (fun o ho => (c.isCartLine o ho).dispatched)
  rw [hzero]
  induction c.products with
  | nil => rfl
  | cons o os ih => rw [amountSum_cons, ih, Int64.toInt_zero, Int.add_zero]

end Cart
