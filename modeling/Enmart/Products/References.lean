import Enmart.Cart.Provider
import Enmart.Orders.Pricing
import Enmart.Products.Store

/-!
# The products of the lines

A line of a cart or of an order names its product and holds nothing else of
it: its material and its price are read from the product's document whenever
the line is shown. Deleting a product deletes the document and nothing else,
and neither the cart nor checkout asks whether the product is still there.

`shopStep` is the three collections with any number of devices, each with the
list of its `CartProvider`. `lines_found_iff` says that the product of every
line of every cart and order can be read exactly as long as no product is
deleted that a line is of, and no line is added or bought of a product that is
not there.
-/

open Firestore SetArray

/-- **The products, the carts and the orders**, and the devices. -/
structure ShopState where
  products : Collection
  carts : Collection
  orders : Collection
  /-- The list of each device's `CartProvider`. -/
  lists : ℕ → List OrderModel

/-- What happens next. -/
inductive ShopAction where
  /-- The products are changed. -/
  | product (a : ProductAction)
  /-- A device reads the cart of a user. -/
  | readCart (device : ℕ) (uid : String)
  /-- A user adds a line. -/
  | addToCart (device : ℕ) (uid : String) (order : OrderModel)
  /-- A user buys what is in the list. -/
  | checkout (device : ℕ) (uid : String) (dt : DateTime)
  deriving DecidableEq, Repr

/-- **One step of the shop.** -/
def shopStep (s : ShopState) : ShopAction → Option ShopState
  | .product a => (productStep s.products a).map (fun products => { s with products := products })
  | .readCart device uid =>
    (initializeCart (s.lists device) (s.carts uid)).map (fun products =>
      { s with lists := Function.update s.lists device products })
  | .addToCart device uid order => some { s with
      carts := Function.update s.carts uid (some (cartAdded order (s.carts uid)))
      lists := Function.update s.lists device (s.lists device ++ [order]) }
  | .checkout device uid dt =>
    if s.lists device ≠ [] then
      some { s with
        orders := s.orders.set (toString dt.millisecondsSinceEpoch)
          (Fields.values (cartToOrder uid dt (s.lists device)).toMap)
        carts := s.carts.delete uid
        lists := Function.update s.lists device [] }
    else none

section Print

variable (print : Value → String)

/-- The product of a line can be read. -/
def Found (products : Collection) (l : OrderModel) : Prop :=
  (productById print products l.productId).isSome

/-- **Every line's product can be found**, of the carts and of the orders. -/
structure LinesFound (s : ShopState) : Prop where
  carts : s.carts.Each (fun _ doc => ∀ items, cartItems doc = some items →
    ∀ l ∈ items, Found print s.products l)
  orders : s.orders.Each (fun _ doc => ∀ m, OrderCartModel.fromMap doc = some m →
    ∀ l ∈ m.items, Found print s.products l)

/-- A line is in a cart or in an order. -/
def ShopState.HasLine (s : ShopState) (l : OrderModel) : Prop :=
  (∃ uid doc items, s.carts uid = some doc ∧ cartItems doc = some items ∧ l ∈ items) ∨
    ∃ k doc m, s.orders k = some doc ∧ OrderCartModel.fromMap doc = some m ∧ l ∈ m.items

/-- **Products in use stay**: no product is deleted that a line is of, and no
line is added or bought of a product that is not there. -/
def KeepsProducts (s : ShopState) : ShopAction → Prop
  | .product (.delete id) => ∀ l, s.HasLine l → l.productId ≠ id
  | .addToCart _ _ order => Found print s.products order
  | .checkout device _ _ => ∀ l ∈ s.lists device, Found print s.products l
  | _ => True

/-- What is so between the steps. -/
structure ShopKept (s : ShopState) : Prop where
  /-- The products can be decoded. -/
  products : s.products.Each (fun _ doc => IsProductDoc print doc)
  /-- The cart documents are of lines. -/
  carts : s.carts.Each (fun _ doc => ∃ ls, doc = cartDoc ls)
  found : LinesFound print s

variable {print}

/-! ## What the writers of the products keep -/

/-- What `toMap` stores is the document of a product. -/
theorem isProductDoc_toMap (m : ProductModel) : IsProductDoc print m.toMap :=
  ⟨by rw [ProductModel.fromMap_toMap]; rfl, List.Pairwise.nil⟩

/-- **Every writer leaves documents of products.** -/
theorem isProductDoc_step {products products' : Collection} {a : ProductAction}
    (h : products.Each (fun _ doc => IsProductDoc print doc))
    (hstep : productStep products a = some products') :
    products'.Each (fun _ doc => IsProductDoc print doc) := by
  cases a with
  | create now code material quantity price =>
    obtain ⟨-, rfl⟩ := eq_of_put hstep
    exact Collection.Each.put h (isProductDoc_toMap _)
  | update m =>
    obtain ⟨doc, hdoc, rfl⟩ := Option.map_eq_some_iff.mp hstep
    exact Collection.Each.put h ((h m.id doc hdoc).updateItem m)
  | delete id =>
    obtain rfl := Option.some.inj hstep
    exact Collection.Each.delete h id
  | special productId model =>
    obtain ⟨doc, hdoc, rfl⟩ := Option.map_eq_some_iff.mp hstep
    exact Collection.Each.put h ((h productId doc hdoc).setSpecialPrice model)
  | importRow key now =>
    obtain ⟨-, rfl⟩ := eq_of_put hstep
    exact Collection.Each.put h (isProductDoc_toMap _)

/-- Where all products can be decoded, one is found wherever there is a
document. -/
theorem isSome_productById_iff {products : Collection}
    (h : products.Each (fun _ doc => IsProductDoc print doc)) (id : String) :
    (productById print products id).isSome ↔ (products id).isSome := by
  unfold productById
  rcases hdoc : products id with _ | doc
  · exact Iff.rfl
  · exact iff_of_true (h id doc hdoc).decodes rfl

/-- **Only a deletion removes a document**, and only the one it is of. -/
theorem isSome_of_productStep {products products' : Collection} {a : ProductAction} {id : String}
    (hstep : productStep products a = some products') (ha : a ≠ .delete id)
    (hid : (products id).isSome) : (products' id).isSome := by
  have hput : ∀ k doc, (Function.update products k (some doc) id).isSome := by
    intro k doc
    by_cases hk : id = k
    · subst hk
      rw [Function.update_self]
      rfl
    · rw [Function.update_of_ne hk]
      exact hid
  cases a with
  | create now code material quantity price =>
    obtain ⟨-, rfl⟩ := eq_of_put hstep
    exact hput _ _
  | update m =>
    obtain ⟨doc, -, rfl⟩ := Option.map_eq_some_iff.mp hstep
    exact hput _ _
  | delete id' =>
    obtain rfl := Option.some.inj hstep
    have hne : id ≠ id' := fun hc => ha (by rw [hc])
    rw [Collection.delete, Function.update_of_ne hne]
    exact hid
  | special productId model =>
    obtain ⟨doc, -, rfl⟩ := Option.map_eq_some_iff.mp hstep
    exact hput _ _
  | importRow key now =>
    obtain ⟨-, rfl⟩ := eq_of_put hstep
    exact hput _ _

/-! ## What a step keeps -/

section Step

variable {s s' : ShopState} {a : ShopAction}

/-- Where all lines are found, those of a cart are. -/
theorem LinesFound.of_cart (h : LinesFound print s) (uid : String) {ls : List OrderModel}
    (hcart : s.carts uid = some (cartDoc ls)) : ∀ l ∈ ls, Found print s.products l :=
  h.carts uid _ hcart ls (cartItems_cartDoc ls)

/-- A user has no cart, or one of lines. -/
theorem ShopKept.cart_eq (h : ShopKept print s) (uid : String) :
    s.carts uid = none ∨ ∃ ls, s.carts uid = some (cartDoc ls) := by
  rcases hdoc : s.carts uid with _ | doc
  · exact Or.inl rfl
  · obtain ⟨ls, rfl⟩ := h.carts uid doc hdoc
    exact Or.inr ⟨ls, rfl⟩

/-- The lines of a user's cart after a line is added. -/
theorem ShopKept.cartAdded (h : ShopKept print s) (uid : String) (order : OrderModel) :
    ∃ ls, cartAdded order (s.carts uid) = cartDoc ls ∧ order ∈ ls ∧
      ∀ l ∈ ls, l = order ∨ Found print s.products l := by
  refine ⟨_, cartAdded_eq order (h.cart_eq uid), mem_union_singleton.mpr (Or.inr rfl),
    fun l hl => ?_⟩
  rcases mem_union_singleton.mp hl with hl | rfl
  · rcases h.cart_eq uid with hnone | ⟨ls, hls⟩
    · rw [hnone] at hl
      exact absurd hl List.not_mem_nil
    · rw [hls, Option.bind_some, cartItems_cartDoc] at hl
      exact Or.inr (h.found.of_cart uid hls l hl)
  · exact Or.inl rfl

/-- **The products change under the lines**: no line is lost as long as none is of
the product deleted. -/
theorem LinesFound.product (h : ShopKept print s) {b : ProductAction} {products : Collection}
    (hC : KeepsProducts print s (.product b)) (hstep : productStep s.products b = some products) :
    LinesFound print { s with products := products } := by
  have hdocs := isProductDoc_step h.products hstep
  have hstay : ∀ l, s.HasLine l → Found print s.products l → Found print products l := by
    intro l hl hfound
    refine (isSome_productById_iff hdocs _).mpr (isSome_of_productStep hstep ?_
      ((isSome_productById_iff h.products _).mp hfound))
    rintro rfl
    exact hC l hl rfl
  refine ⟨fun uid doc hdoc items hitems l hl => ?_, fun k doc hdoc m hm l hl => ?_⟩
  · exact hstay l (Or.inl ⟨uid, doc, items, hdoc, hitems, hl⟩)
      (h.found.carts uid doc hdoc items hitems l hl)
  · exact hstay l (Or.inr ⟨k, doc, m, hdoc, hm, hl⟩) (h.found.orders k doc hdoc m hm l hl)

/-- The order placed reads as the lines of the list. -/
theorem values_cartToOrder (orders : Collection) (k uid : String) (dt : DateTime)
    (items : List OrderModel) :
    orders.set k (Fields.values (cartToOrder uid dt items).toMap)
      = Function.update orders k (some (cartToOrder uid dt items).toMap) := by
  rw [Collection.set, Fields.ofUpdate_values (OrderCartModel.toMap_sorted _)]

/-- **A step that keeps the products in use** keeps every line's product. -/
theorem ShopKept.step (h : ShopKept print s) (hC : KeepsProducts print s a)
    (hstep : shopStep s a = some s') : ShopKept print s' := by
  cases a with
  | product b =>
    obtain ⟨products, hproducts, rfl⟩ := Option.map_eq_some_iff.mp hstep
    exact ⟨isProductDoc_step h.products hproducts, h.carts, LinesFound.product h hC hproducts⟩
  | readCart device uid =>
    obtain ⟨list, -, rfl⟩ := Option.map_eq_some_iff.mp hstep
    exact ⟨h.products, h.carts, ⟨h.found.carts, h.found.orders⟩⟩
  | addToCart device uid order =>
    obtain rfl := Option.some.inj hstep
    obtain ⟨ls, hls, -, hfound⟩ := h.cartAdded uid order
    refine ⟨h.products, Collection.Each.put h.carts ⟨ls, hls⟩,
      ⟨Collection.Each.put h.found.carts ?_, h.found.orders⟩⟩
    · intro items hitems l hl
      rw [hls, cartItems_cartDoc] at hitems
      obtain rfl := Option.some.inj hitems
      rcases hfound l hl with rfl | hl
      · exact hC
      · exact hl
  | checkout device uid dt =>
    rw [shopStep] at hstep
    split at hstep
    · obtain rfl := Option.some.inj hstep
      refine ⟨h.products, Collection.Each.delete h.carts uid,
        ⟨Collection.Each.delete h.found.carts uid, ?_⟩⟩
      · show Collection.Each (s.orders.set _ _) _
        rw [values_cartToOrder]
        refine Collection.Each.put h.found.orders (fun m hm l hl => ?_)
        rw [OrderCartModel.fromMap_toMap] at hm
        obtain rfl := Option.some.inj hm
        exact hC l hl
    · exact absurd hstep (by simp)

/-- **A step that does not** leaves a line whose product cannot be found. -/
theorem ShopKept.not_linesFound (h : ShopKept print s) (hC : ¬ KeepsProducts print s a)
    (hstep : shopStep s a = some s') : ¬ LinesFound print s' := by
  intro hlaw
  cases a with
  | product b =>
    cases b with
    | delete id =>
      obtain rfl := Option.some.inj hstep
      have hgone : ∀ l, l.productId = id → ¬ Found print (s.products.delete id) l := by
        rintro l rfl hl
        rw [Found, productById, Collection.delete, Function.update_self] at hl
        exact Bool.false_ne_true hl
      refine hC (fun l hl hid => hgone l hid ?_)
      rcases hl with ⟨uid, doc, items, hdoc, hitems, hl⟩ | ⟨k, doc, m, hdoc, hm, hl⟩
      · exact hlaw.carts uid doc hdoc items hitems l hl
      · exact hlaw.orders k doc hdoc m hm l hl
    | create now code material quantity price => exact hC trivial
    | update m => exact hC trivial
    | special productId model => exact hC trivial
    | importRow key now => exact hC trivial
  | readCart device uid => exact hC trivial
  | addToCart device uid order =>
    obtain rfl := Option.some.inj hstep
    obtain ⟨ls, hls, hmem, -⟩ := h.cartAdded uid order
    exact hC (hlaw.of_cart uid (by rw [← hls]; exact Function.update_self ..) order hmem)
  | checkout device uid dt =>
    rw [shopStep] at hstep
    split at hstep
    · obtain rfl := Option.some.inj hstep
      have horders := hlaw.orders
      refine hC (horders (toString dt.millisecondsSinceEpoch) _ ?_ _
        (OrderCartModel.fromMap_toMap (cartToOrder uid dt (s.lists device))))
      show s.orders.set _ _ _ = _
      rw [values_cartToOrder]
      exact Function.update_self ..
    · exact absurd hstep (by simp)

end Step

end Print

/-- **When every line's product can be found.** From any products, carts and
orders in which it can, in any run of the writers of the products, additions to
carts and checkouts, on any devices and by any users, the product of every line
of every cart and order can be read – exactly when no product is deleted that a
line is of, and no line is added or bought of a product that is not there. -/
theorem lines_found_iff (print : Value → String) (s : ShopState) (h : ShopKept print s)
    (as : List ShopAction) :
    Runs.Along shopStep (LinesFound print) s as
      ↔ Runs.Meets shopStep (KeepsProducts print) s as :=
  Runs.along_iff_meets (I := ShopKept print) (fun _ hI => hI.found)
    (fun _ _ _ hI hC hstep => hI.step hC hstep)
    (fun _ _ _ hI hC hstep => hI.not_linesFound hC hstep) h

/-- A shop with nothing in it. -/
def ShopState.empty : ShopState where
  products := fun _ => none
  carts := fun _ => none
  orders := fun _ => none
  lists := fun _ => []

theorem shopKept_empty (print : Value → String) : ShopKept print .empty :=
  ⟨fun _ _ hdoc => (nomatch hdoc), fun _ _ hdoc => (nomatch hdoc),
    ⟨fun _ _ hdoc => (nomatch hdoc), fun _ _ hdoc => (nomatch hdoc)⟩⟩

/-- The law at work: a product created and bought. -/
theorem lines_found_iff_bought :
    Runs.Along shopStep (LinesFound (fun _ => "")) .empty
        [.product (.create ⟨2000⟩ "c" "m" "1" (.int 5)),
          .addToCart 0 "u" { cartLine "1" 1 with productId := "2" }, .checkout 0 "u" ⟨3000⟩]
      ↔ Runs.Meets shopStep (KeepsProducts (fun _ => "")) .empty
        [.product (.create ⟨2000⟩ "c" "m" "1" (.int 5)),
          .addToCart 0 "u" { cartLine "1" 1 with productId := "2" }, .checkout 0 "u" ⟨3000⟩] :=
  lines_found_iff (fun _ => "") .empty (shopKept_empty _)
    [.product (.create ⟨2000⟩ "c" "m" "1" (.int 5)),
      .addToCart 0 "u" { cartLine "1" 1 with productId := "2" }, .checkout 0 "u" ⟨3000⟩]

/-- **A product deleted from under a cart**: its line stays, and cannot be
shown. -/
theorem deleted_in_cart :
    ¬ ∀ (print : Value → String) (s : ShopState), ShopKept print s → ∀ (as : List ShopAction),
      Runs.Along shopStep (LinesFound print) s as := by
  intro h
  have hlaw := h (fun _ => "") .empty (shopKept_empty _)
    [.product (.create ⟨2000⟩ "c" "m" "1" (.int 5)),
      .addToCart 0 "u" { cartLine "1" 1 with productId := "2" }, .product (.delete "2")]
  have hline := (hlaw.last rfl).of_cart "u"
    (show _ = some (cartDoc [{ cartLine "1" 1 with productId := "2" }]) by decide +kernel) _
    (List.mem_cons_self ..)
  exact absurd hline (by unfold Found; decide +kernel)
