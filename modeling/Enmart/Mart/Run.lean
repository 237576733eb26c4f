import Enmart.Mart.Abstract
import Enmart.Cart.Retry
import Enmart.Orders.Dialog
import Enmart.Products.References

/-!
# The documents of a mart

Any number of customers on any number of devices fill their carts and buy, and
administrators dispatch what was bought, one request after the other, all of
them succeeding. `martStep` is that on the documents, and on the lists the
devices hold: an order is a document with its lines and totals, a line that is
dispatched is taken out of its array and put back at the end, and what a device
buys is not what the cart document says but what its own list does.

Seen from outside it is a mart (`isSimulation`), as long as the run is
*orderly*: no line gets an identifier that is in the cart, a device that buys
shows the cart as it is stored, no order is placed under a key that is taken,
and no amount dispatched is more than remains.
-/

open Firestore SetArray

/-- **The documents, and the devices.** -/
structure MartState where
  carts : Collection
  orders : Collection
  /-- Who is signed in on each device. -/
  authUser : ℕ → Option String
  /-- The list of `CartProvider` on each device. -/
  products : ℕ → List OrderModel

/-- What happens next. -/
inductive MartAction where
  /-- The app is started, and its splash screen reads the cart. -/
  | openApp (device : ℕ)
  /-- A customer signs in through the login page, which does not. -/
  | login (device : ℕ) (uid : String)
  | signOut (device : ℕ)
  /-- The customer of a device adds a product. -/
  | addToCart (device : ℕ) (productId : String) (n : SliderCounters) (now now' : DateTime)
  /-- The customer of a device buys what its list shows. -/
  | checkout (device : ℕ) (dt : DateTime)
  /-- An administrator dispatches what is typed, of a line of an order. -/
  | dispatch (key : String) (e : OrderModel) (text : String)
  deriving DecidableEq, Repr

namespace MartState

/-- The lines of a customer's cart document. -/
def linesOf (s : MartState) (uid : String) : List OrderModel :=
  ((s.carts uid).bind cartItems).getD []

/-- No documents, and nobody signed in. -/
def empty : MartState := ⟨fun _ => none, fun _ => none, fun _ => none, fun _ => []⟩

end MartState

/-- **One step.** -/
def martStep (s : MartState) : MartAction → Option MartState
  | .openApp device =>
    match s.authUser device with
    | none => some { s with products := Function.update s.products device [] }
    | some uid => (initializeCart [] (s.carts uid)).map (fun products =>
        { s with products := Function.update s.products device products })
  | .login device uid =>
    some { s with authUser := Function.update s.authUser device (some uid) }
  | .signOut device => some { s with authUser := Function.update s.authUser device none }
  | .addToCart device productId n now now' => do
    let uid ← s.authUser device
    let order ← addToCartModal productId n now now'
    some { s with
      carts := Function.update s.carts uid (some (cartAdded order (s.carts uid)))
      products := Function.update s.products device (s.products device ++ [order]) }
  | .checkout device dt => do
    let uid ← s.authUser device
    if s.products device = [] then none
    else some { s with
      orders := s.orders.set (orderKey dt) (cartToOrder uid dt (s.products device)).toMap.values
      carts := s.carts.delete uid
      products := Function.update s.products device [] }
  | .dispatch key e text => do
    let doc ← s.orders key
    let doc' ← dialogStep doc (e, text)
    some { s with orders := Function.update s.orders key (some doc') }

/-! ## What it is of a mart -/

/-- A line, as an item of a basket. -/
def OrderModel.item (o : OrderModel) : Item := ⟨o.productId, o.quantity.toInt.toNat⟩

/-- A line, as an entry of a customer's order. -/
def OrderModel.entry (customer : String) (o : OrderModel) : Entry where
  customer := customer
  productId := o.productId
  sent := o.dispatched.toInt.toNat
  remaining := (o.quantity.toInt - o.dispatched.toInt).toNat

/-- **What a step is to the mart**: nothing, where only devices change. -/
def martEvents (s : MartState) : MartAction → List MartEvent
  | .addToCart device productId n now now' =>
    ((s.authUser device).bind (fun uid =>
      (addToCartModal productId n now now').map (fun o => .put uid o.item))).toList
  | .checkout device dt => ((s.authUser device).map (fun uid => .buy uid (orderKey dt))).toList
  | .dispatch key e text =>
    (((s.orders key).bind OrderCartModel.fromMap).bind (fun m =>
      (intTryParse text).map (fun n => .send key (e.entry m.uid) n.toInt.toNat))).toList
  | _ => []

/-- **An orderly step.** A line is added under an identifier that is not in the
customer's cart document. A checkout is made by a device whose list is the cart
document of the customer who is signed in, under a key at which no order is
stored, and of fewer than `2 ^ 63` pieces. A dispatch is of no more pieces than
remain of the line as it is stored. The other steps are orderly as they are. -/
def Orderly (s : MartState) : MartAction → Prop
  | .addToCart device _ _ now _ => ∀ uid, s.authUser device = some uid →
      ∀ o ∈ s.linesOf uid, o.orderId ≠ toString now.millisecondsSinceEpoch
  | .checkout device dt => (∀ uid, s.authUser device = some uid →
      s.products device = s.linesOf uid) ∧ s.orders (orderKey dt) = none
      ∧ amountSum OrderModel.quantity (s.products device) < 2 ^ 63
  | .dispatch _ e text => WithinRemaining (e, text)
  | _ => True

instance (s : MartState) : (a : MartAction) → Decidable (Orderly s a)
  | .addToCart device _ _ now _ => decidable_of_iff (∀ uid ∈ s.authUser device,
      ∀ o ∈ s.linesOf uid, o.orderId ≠ toString now.millisecondsSinceEpoch) Iff.rfl
  | .checkout device dt => decidable_of_iff ((∀ uid ∈ s.authUser device,
      s.products device = s.linesOf uid) ∧ s.orders (orderKey dt) = none
      ∧ amountSum OrderModel.quantity (s.products device) < 2 ^ 63) Iff.rfl
  | .dispatch _ e text =>
    match h : intTryParse text with
    | none => isTrue (fun _ hn => nomatch h.symm.trans hn)
    | some n => decidable_of_iff (n.toInt ≤ e.quantity.toInt - e.dispatched.toInt)
        ⟨fun hle _ hn => Option.some.inj (h.symm.trans hn) ▸ hle, fun hC => hC n h⟩
  | .openApp _ | .login _ _ | .signOut _ => isTrue trivial

/-- **A document stands for what was ordered under its key.** -/
inductive StandsFor (key : String) : Option Fields → Multiset Entry → Prop where
  | none : StandsFor key none 0
  | order (m₀ m : OrderCartModel) (hid : m.id = key) (hledger : IsLedgerOf m₀ m)
      (hwithin : ∀ e ∈ m.items, e.dispatched.toInt ≤ e.quantity.toInt) (hne : m.items ≠ []) :
      StandsFor key (some m.toMap) (m.items.map (OrderModel.entry m.uid))

/-- **The documents are those of a mart.** -/
structure Reflects (s : MartState) (t : Mart) : Prop where
  /-- The cart documents are of lines. -/
  carts : ∀ uid, s.carts uid = none ∨ ∃ ls, s.carts uid = some (cartDoc ls)
  /-- The lines are as the modal builds them. -/
  isCartLine : ∀ uid, ∀ o ∈ s.linesOf uid, IsCartLine o
  /-- No two lines of a cart share an identifier. -/
  distinct : ∀ uid, ((s.linesOf uid).map OrderModel.orderId).Nodup
  basket : ∀ uid, t.basket uid = (s.linesOf uid).map OrderModel.item
  orders : ∀ key, StandsFor key (s.orders key) (t.orders key)

namespace Reflects

variable {s s' : MartState} {t : Mart}

/-- A mart before anything happens. -/
theorem empty : Reflects .empty .empty :=
  ⟨fun _ => Or.inl rfl, fun _ _ ho => absurd ho List.not_mem_nil, fun _ => List.nodup_nil,
    fun _ => rfl, fun _ => StandsFor.none⟩

/-- The devices do not matter to it. -/
theorem congr (h : Reflects s t) (hcarts : s'.carts = s.carts) (horders : s'.orders = s.orders) :
    Reflects s' t := by
  have hlines (uid : String) : s'.linesOf uid = s.linesOf uid := by
    unfold MartState.linesOf
    rw [hcarts]
  exact ⟨fun uid => by rw [hcarts]; exact h.carts uid,
    fun uid => by rw [hlines]; exact h.isCartLine uid,
    fun uid => by rw [hlines]; exact h.distinct uid,
    fun uid => by rw [hlines]; exact h.basket uid,
    fun key => by rw [horders]; exact h.orders key⟩

/-- **The carts after one of them is changed**: what has to be said of it is
said of its lines. -/
theorem updateCart (h : Reflects s t) (uid : String) {doc : Option Fields}
    (ls : List OrderModel) (hcarts : s'.carts = Function.update s.carts uid doc)
    (hdoc : doc = some (cartDoc ls) ∨ doc = none ∧ ls = []) (hline : ∀ o ∈ ls, IsCartLine o)
    (hdistinct : (ls.map OrderModel.orderId).Nodup) {t' : Mart}
    (hbasket : t'.basket = Function.update t.basket uid (ls.map OrderModel.item))
    (horders : ∀ key, StandsFor key (s'.orders key) (t'.orders key)) : Reflects s' t' := by
  have hread : (doc.bind cartItems).getD [] = ls := by
    rcases hdoc with rfl | ⟨rfl, rfl⟩
    · rw [Option.bind_some, cartItems_cartDoc, Option.getD_some]
    · rfl
  have hlines (uid' : String) : s'.linesOf uid' = if uid' = uid then ls else s.linesOf uid' := by
    unfold MartState.linesOf
    rw [hcarts]
    by_cases hu : uid' = uid
    · rw [if_pos hu, hu, Function.update_self, hread]
    · rw [if_neg hu, Function.update_of_ne hu]
  constructor
  · intro uid'
    rw [hcarts]
    by_cases hu : uid' = uid
    · rw [hu, Function.update_self]
      rcases hdoc with rfl | ⟨rfl, -⟩
      · exact Or.inr ⟨ls, rfl⟩
      · exact Or.inl rfl
    · rw [Function.update_of_ne hu]
      exact h.carts uid'
  · intro uid'
    rw [hlines]
    split
    · exact hline
    · exact h.isCartLine uid'
  · intro uid'
    rw [hlines]
    split
    · exact hdistinct
    · exact h.distinct uid'
  · intro uid'
    rw [hlines, hbasket]
    by_cases hu : uid' = uid
    · rw [if_pos hu, hu, Function.update_self]
    · rw [if_neg hu, Function.update_of_ne hu]
      exact h.basket uid'
  · exact horders

/-- Nothing was ordered under a key without a document. -/
theorem orders_eq_zero (h : Reflects s t) {key : String} (hkey : s.orders key = none) :
    t.orders key = 0 := by
  have hstands := h.orders key
  rw [hkey] at hstands
  generalize t.orders key = es at hstands
  cases hstands
  rfl

/-- What is ordered under the keys after one of the orders is changed. -/
theorem standsFor_update (h : Reflects s t) (key : String) {doc : Option Fields}
    {es : Multiset Entry} (hdoc : StandsFor key doc es) (key' : String) :
    StandsFor key' (Function.update s.orders key doc key') (t.orders.update key es key') := by
  rw [Finsupp.update_apply]
  by_cases hk : key' = key
  · subst hk
    rw [Function.update_self, if_pos rfl]
    exact hdoc
  · rw [Function.update_of_ne hk, if_neg hk]
    exact h.orders key'

/-! ## One step -/

/-- **Adding to the cart** is putting an item in the basket. -/
theorem addToCart (h : Reflects s t) {device : ℕ} {productId : String} {n : SliderCounters}
    {now now' : DateTime} (hC : Orderly s (.addToCart device productId n now now'))
    (hstep : martStep s (.addToCart device productId n now now') = some s') :
    ∃ t', Runs.run Mart.step t (martEvents s (.addToCart device productId n now now')) = some t'
      ∧ Reflects s' t' := by
  obtain ⟨uid, huid, hstep⟩ := Option.bind_eq_some_iff.mp hstep
  obtain ⟨order, horder, hstep⟩ := Option.bind_eq_some_iff.mp hstep
  obtain rfl := Option.some.inj hstep
  obtain ⟨quantity, hquantity, hline⟩ := addToCartModal_eq_some horder
  have hid : order.orderId = toString now.millisecondsSinceEpoch := by rw [hline]
  have hfresh : ∀ o ∈ s.linesOf uid, o.orderId ≠ order.orderId := by
    rw [hid]
    exact hC uid huid
  have hnew : order ∉ s.linesOf uid := fun ho => hfresh order ho rfl
  have hevents : martEvents s (.addToCart device productId n now now')
      = [.put uid order.item] := by
    show (((s.authUser device).bind _).toList : List MartEvent) = _
    rw [huid, Option.bind_some, horder]
    rfl
  have hput : t.step (.put uid order.item)
      = some { t with basket := Function.update t.basket uid (order.item ::ₘ t.basket uid) } := by
    have hpos : 0 < order.item.pieces := by
      rw [hline]
      show 0 < quantity.toInt.toNat
      omega
    exact if_pos hpos
  rw [hevents, Runs.run, hput]
  refine ⟨_, rfl, h.updateCart uid (s.linesOf uid ++ [order]) rfl (Or.inl ?_)
    ?_ ?_ ?_ h.orders⟩
  · rw [cartAdded_eq order (h.carts uid)]
    exact congrArg (fun ls => some (cartDoc ls)) (union_of_notMem hnew)
  · intro o ho
    rcases List.mem_append.mp ho with ho | ho
    · exact h.isCartLine uid o ho
    · rw [List.mem_singleton.mp ho]
      exact isCartLine_of_addToCartModal horder
  · rw [List.map_append, List.nodup_append]
    refine ⟨h.distinct uid, List.nodup_singleton _, ?_⟩
    intro k hk k' hk'
    obtain ⟨o, ho, rfl⟩ := List.mem_map.mp hk
    rw [List.mem_singleton.mp hk']
    exact hfresh o ho
  · show Function.update t.basket uid (order.item ::ₘ t.basket uid) = _
    rw [h.basket uid, List.map_append, ← Multiset.coe_add, add_comm]
    rfl

/-- A cart line is ordered as the item it was. -/
theorem entry_of_isCartLine {o : OrderModel} (ho : IsCartLine o) (uid : String) :
    o.entry uid = Entry.ofItem uid o.item := by
  unfold OrderModel.entry
  rw [ho.dispatched]
  show Entry.mk uid o.productId 0 (o.quantity.toInt - 0).toNat = _
  rw [sub_zero]
  rfl

/-- **Checking out** is buying what is in the basket. -/
theorem checkout (h : Reflects s t) {device : ℕ} {dt : DateTime}
    (hC : Orderly s (.checkout device dt)) (hstep : martStep s (.checkout device dt) = some s') :
    ∃ t', Runs.run Mart.step t (martEvents s (.checkout device dt)) = some t'
      ∧ Reflects s' t' := by
  obtain ⟨uid, huid, hstep⟩ := Option.bind_eq_some_iff.mp hstep
  obtain ⟨hne, hstep⟩ := Option.ite_none_left_eq_some.mp hstep
  obtain rfl := Option.some.inj hstep
  obtain ⟨hshown, hfree, hfit⟩ := hC
  rw [hshown uid huid] at hne hfit ⊢
  have hevents : martEvents s (.checkout device dt) = [.buy uid (orderKey dt)] := by
    show (((s.authUser device).map _).toList : List MartEvent) = _
    rw [huid]
    rfl
  have hbasket : t.basket uid ≠ 0 := by
    rw [h.basket uid]
    exact fun hz => hne (List.map_eq_nil_iff.mp ((Multiset.coe_eq_zero _).mp hz))
  -- the lines of the cart are ready for checkout
  let cart : Cart := ⟨s.linesOf uid, hne, h.distinct uid, h.isCartLine uid⟩
  have hentries : (t.basket uid).map (Entry.ofItem uid)
      = ((cart.order uid dt).items.map (OrderModel.entry uid) : List Entry) := by
    rw [h.basket uid, Multiset.map_coe, List.map_map]
    exact congrArg _ (List.map_congr_left (fun o ho =>
      (entry_of_isCartLine (h.isCartLine uid o ho) uid).symm))
  have hstands : StandsFor (orderKey dt) (some (cart.order uid dt).toMap)
      ((t.basket uid).map (Entry.ofItem uid)) := by
    rw [hentries]
    refine StandsFor.order _ (cart.order uid dt) rfl (cart.isLedgerOf_order uid dt hfit) ?_ hne
    intro e he
    have hline := h.isCartLine uid e he
    have := hline.quantity
    rw [hline.dispatched, Int64.toInt_zero]
    omega
  rw [hevents, Runs.run, show t.step (.buy uid (orderKey dt)) = some _ from
    if_pos ⟨hbasket, h.orders_eq_zero hfree⟩]
  refine ⟨_, rfl, h.updateCart uid [] rfl (Or.inr ⟨rfl, rfl⟩)
    (fun _ ho => absurd ho List.not_mem_nil) List.nodup_nil rfl (fun key => ?_)⟩
  show StandsFor key (Collection.set s.orders _ _ key) _
  rw [values_cartToOrder]
  exact h.standsFor_update _ hstands key

/-- A line more of which is dispatched is an entry more of which is sent. -/
theorem entry_withDispatched {e : OrderModel} {n : Int64} (he : 0 ≤ e.dispatched.toInt)
    (hn : 0 ≤ n.toInt) (hle : n.toInt ≤ e.quantity.toInt - e.dispatched.toInt) (uid : String) :
    (e.entry uid).send n.toInt.toNat = (e.withDispatched (e.dispatched + n)).entry uid := by
  have hquantity := e.quantity.toInt_lt
  have hsum : (e.dispatched + n).toInt = e.dispatched.toInt + n.toInt :=
    Int64.toInt_add_of_fits ⟨by omega, by omega⟩
  have hsent : e.dispatched.toInt.toNat + n.toInt.toNat
      = (e.dispatched.toInt + n.toInt).toNat := by omega
  have hremaining : (e.quantity.toInt - e.dispatched.toInt).toNat - n.toInt.toNat
      = (e.quantity.toInt - (e.dispatched.toInt + n.toInt)).toNat := by omega
  show Entry.mk uid e.productId (e.dispatched.toInt.toNat + n.toInt.toNat)
      ((e.quantity.toInt - e.dispatched.toInt).toNat - n.toInt.toNat)
    = Entry.mk uid e.productId (e.dispatched + n).toInt.toNat
      (e.quantity.toInt - (e.dispatched + n).toInt).toNat
  rw [hsum, hsent, hremaining]

/-- **The entries of an order after a dispatch**: the line is taken out, and put
back with the amount booked. -/
theorem entries_dispatch {m₀ m : OrderCartModel} (h : IsLedgerOf m₀ m) {e : OrderModel}
    (he : e ∈ m.items) {n : Int64} (hn : 0 ≤ n.toInt)
    (hle : n.toInt ≤ e.quantity.toInt - e.dispatched.toInt) :
    e.entry m.uid ∈ (m.items.map (OrderModel.entry m.uid) : Multiset Entry)
      ∧ (e.entry m.uid).send n.toInt.toNat
          ::ₘ Multiset.erase (m.items.map (OrderModel.entry m.uid)) (e.entry m.uid)
        = (m.dispatch (QuantityUpdate.call ⟨e, m⟩ n)).items.map (OrderModel.entry m.uid) := by
  have hself := h.entries_self he
  have hold : (m.items.map (OrderModel.entry m.uid) : Multiset Entry)
      = e.entry m.uid ::ₘ ((remove m.items [e]).map (OrderModel.entry m.uid) : List Entry) := by
    rw [Multiset.cons_coe]
    exact Multiset.coe_eq_coe.mpr
      ((perm_cons_remove OrderModel.orderId hself).map (OrderModel.entry m.uid))
  have hitems : (m.dispatch (QuantityUpdate.call ⟨e, m⟩ n)).items
      = remove m.items [e] ++ [e.withDispatched (e.dispatched + n)] :=
    union_of_notMem (notMem_of_entries_eq_nil OrderModel.orderId
      (entries_remove_self OrderModel.orderId hself))
  refine ⟨Multiset.mem_coe.mpr (List.mem_map_of_mem he), ?_⟩
  rw [hold, Multiset.erase_cons_head, hitems, List.map_append, ← Multiset.coe_add, add_comm,
    entry_withDispatched (h.nonneg e he) hn hle]
  rfl

/-- **Dispatching** is sending. -/
theorem dispatch (h : Reflects s t) {key : String} {e : OrderModel} {text : String}
    (hC : Orderly s (.dispatch key e text)) (hstep : martStep s (.dispatch key e text) = some s') :
    ∃ t', Runs.run Mart.step t (martEvents s (.dispatch key e text)) = some t'
      ∧ Reflects s' t' := by
  obtain ⟨doc, hdoc, hstep⟩ := Option.bind_eq_some_iff.mp hstep
  obtain ⟨doc', hdialog, hstep⟩ := Option.bind_eq_some_iff.mp hstep
  obtain rfl := Option.some.inj hstep
  have hstands := h.orders key
  rw [hdoc] at hstands
  generalize hes : t.orders key = es at hstands
  cases hstands with
  | order m₀ m hid hledger hwithin hne =>
    rw [dialogStep_toMap] at hdialog
    obtain ⟨m', hm', rfl⟩ := Option.map_eq_some_iff.mp hdialog
    obtain ⟨he, n, hn, hnn, rfl⟩ := OrderCartModel.dialogStep_eq_some hm'
    have hle : n.toInt ≤ e.quantity.toInt - e.dispatched.toInt := hC n hn
    obtain ⟨hledger', hwithin'⟩ := hledger.dispatch_within hwithin he hnn hle
    have hevents : martEvents s (.dispatch key e text)
        = [.send key (e.entry m.uid) n.toInt.toNat] := by
      show ((((s.orders key).bind _).bind _).toList : List MartEvent) = _
      rw [hdoc, Option.bind_some, OrderCartModel.fromMap_toMap, Option.bind_some, hn]
      rfl
    obtain ⟨hmem, hentries⟩ := entries_dispatch hledger he hnn hle
    have hsend : t.step (.send key (e.entry m.uid) n.toInt.toNat) = some ⟨t.basket,
        t.orders.update key ((m.dispatch (QuantityUpdate.call ⟨e, m⟩ n)).items.map
          (OrderModel.entry m.uid))⟩ := by
      rw [← hentries, ← hes]
      refine if_pos ⟨?_, ?_⟩
      · rw [hes]
        exact hmem
      · show n.toInt.toNat ≤ (e.quantity.toInt - e.dispatched.toInt).toNat
        omega
    have hne' : (m.dispatch (QuantityUpdate.call ⟨e, m⟩ n)).items ≠ [] :=
      List.ne_nil_of_mem (mem_union_singleton.mpr (Or.inr rfl))
    have hstands := h.standsFor_update key (StandsFor.order m₀
      (m.dispatch (QuantityUpdate.call ⟨e, m⟩ n)) hid hledger' hwithin' hne')
    rw [hevents, Runs.run, hsend]
    exact ⟨_, rfl, ⟨h.carts, h.isCartLine, h.distinct, h.basket, hstands⟩⟩

/-- **One step** of the documents, orderly, is what it is of the mart. -/
theorem step (h : Reflects s t) {a : MartAction} (hC : Orderly s a)
    (hstep : martStep s a = some s') :
    ∃ t', Runs.run Mart.step t (martEvents s a) = some t' ∧ Reflects s' t' := by
  cases a with
  | openApp device =>
    cases hauth : s.authUser device with
    | none =>
      simp only [martStep, hauth] at hstep
      obtain rfl := Option.some.inj hstep
      exact ⟨t, rfl, h.congr rfl rfl⟩
    | some uid =>
      simp only [martStep, hauth] at hstep
      obtain ⟨products, -, rfl⟩ := Option.map_eq_some_iff.mp hstep
      exact ⟨t, rfl, h.congr rfl rfl⟩
  | login device uid =>
    obtain rfl := Option.some.inj hstep
    exact ⟨t, rfl, h.congr rfl rfl⟩
  | signOut device =>
    obtain rfl := Option.some.inj hstep
    exact ⟨t, rfl, h.congr rfl rfl⟩
  | addToCart device productId n now now' => exact h.addToCart hC hstep
  | checkout device dt => exact h.checkout hC hstep
  | dispatch key e text => exact h.dispatch hC hstep

end Reflects

/-- **The documents refine the mart.** -/
theorem isSimulation : Runs.IsSimulation martStep Mart.step Orderly martEvents Reflects :=
  fun _ _ _ _ h hC hstep => h.step hC hstep

/-- **Every orderly run is a run of a mart**, on any devices and by any
customers, and the documents it leaves are those of the mart it leads to. -/
theorem mart_refines (as : List MartAction) (s : MartState)
    (hC : Runs.Meets martStep Orderly .empty as) (hrun : Runs.run martStep .empty as = some s) :
    ∃ t, Runs.run Mart.step .empty (Runs.trace martStep martEvents .empty as) = some t
      ∧ Reflects s t :=
  isSimulation.run Reflects.empty hC hrun

/-- The sheet's counters are at two. -/
def twoPieces : SliderCounters := ⟨0, 0, 0, 2⟩

/-- A customer buys two pieces, and is sent one of them. -/
def boughtAndSent : List MartAction :=
  [.login 0 "u", .addToCart 0 "p" twoPieces ⟨0⟩ ⟨0⟩, .checkout 0 ⟨1000⟩,
    .dispatch "1" ⟨"0", ⟨0⟩, .inCart, "p", 2, 0⟩ "1"]

/-- The steps of buying two pieces and sending one can be taken. -/
theorem isSome_boughtAndSent : (Runs.run martStep .empty boughtAndSent).isSome = true := by
  decide +kernel

/-- The law at work. -/
theorem mart_refines_boughtAndSent : ∃ s, Runs.run martStep .empty boughtAndSent = some s
    ∧ ∃ t, Runs.run Mart.step .empty (Runs.trace martStep martEvents .empty boughtAndSent) = some t
      ∧ Reflects s t :=
  ⟨_, (Option.some_get isSome_boughtAndSent).symm,
    mart_refines _ _ (by decide +kernel) (Option.some_get isSome_boughtAndSent).symm⟩

/-! ## No piece is lost or made -/

/-- The pieces of a product that a line is for. -/
def OrderModel.piecesOf (productId : String) (o : OrderModel) : ℕ :=
  if o.productId = productId then o.quantity.toInt.toNat else 0

/-- The pieces of a product that an item is of. -/
def Item.piecesOf (productId : String) (i : Item) : ℕ :=
  if i.productId = productId then i.pieces else 0

namespace MartState

/-- The lines a customer has bought with an order. -/
def linesBought (s : MartState) (customer key : String) : List OrderModel :=
  match (s.orders key).bind OrderCartModel.fromMap with
  | some m => if m.uid = customer then m.items else []
  | none => []

/-- The pieces a run puts in a customer's cart. -/
def added (s : MartState) (as : List MartAction) (customer productId : String) : ℕ :=
  ((Runs.trace martStep martEvents s as).map
    (MartEvent.put? customer (Item.piecesOf productId))).sum

/-- The pieces a run dispatches of an order. -/
def dispatched (s : MartState) (as : List MartAction) (key : String) : ℕ :=
  ((Runs.trace martStep martEvents s as).map (MartEvent.sentOf key)).sum

end MartState

/-- What is bought with an order is its lines, where it is the customer's. -/
theorem MartState.linesBought_of_order {s : MartState} {key : String} {m : OrderCartModel}
    (hdoc : s.orders key = some m.toMap) (customer : String) :
    s.linesBought customer key = if m.uid = customer then m.items else [] := by
  rw [MartState.linesBought, hdoc, Option.bind_some, OrderCartModel.fromMap_toMap]

/-- An entry is of as many pieces as its line. -/
theorem OrderModel.pieces_entry {o : OrderModel} (hd : 0 ≤ o.dispatched.toInt)
    (hq : o.dispatched.toInt ≤ o.quantity.toInt) (customer : String) :
    (o.entry customer).pieces = o.quantity.toInt.toNat := by
  show o.dispatched.toInt.toNat + (o.quantity.toInt - o.dispatched.toInt).toNat = _
  omega

/-- What a customer holds of an order is what the customer bought with it. -/
theorem StandsFor.sum_heldBy {s : MartState} {key : String} {es : Multiset Entry}
    (h : StandsFor key (s.orders key) es) (customer productId : String) :
    (es.map (Entry.heldBy customer (Item.piecesOf productId))).sum
      = ((s.linesBought customer key).map (OrderModel.piecesOf productId)).sum := by
  generalize hdoc : s.orders key = doc at h
  cases h with
  | none =>
    rw [MartState.linesBought, hdoc]
    rfl
  | order m₀ m hid hledger hwithin hne =>
    rw [MartState.linesBought_of_order hdoc, Multiset.map_coe, Multiset.sum_coe, List.map_map]
    have hentry (o : OrderModel) (ho : o ∈ m.items) :
        Entry.heldBy customer (Item.piecesOf productId) (o.entry m.uid)
          = if m.uid = customer then o.piecesOf productId else 0 := by
      show (if m.uid = customer then Item.piecesOf productId ⟨o.productId, _⟩ else 0) = _
      rw [o.pieces_entry (hledger.nonneg o ho) (hwithin o ho)]
      rfl
    by_cases hu : m.uid = customer
    · rw [if_pos hu]
      exact congrArg List.sum (List.map_congr_left (fun o ho => (hentry o ho).trans (if_pos hu)))
    · rw [if_neg hu]
      refine List.sum_eq_zero (fun x hx => ?_)
      obtain ⟨o, ho, rfl⟩ := List.mem_map.mp hx
      exact (hentry o ho).trans (if_neg hu)

/-- There is a document where something was ordered. -/
theorem StandsFor.isSome_iff {key : String} {doc : Option Fields} {es : Multiset Entry}
    (h : StandsFor key doc es) : doc.isSome ↔ es ≠ 0 := by
  cases h with
  | none => simp
  | order m₀ m hid hledger hwithin hne =>
    refine iff_of_true rfl (fun hz => hne ?_)
    exact List.map_eq_nil_iff.mp ((Multiset.coe_eq_zero _).mp hz)

/-- **No piece is lost or made.** In any orderly run, by any customers on any
devices, the pieces of a product that a customer has added are those in the
customer's cart document and in the documents of the customer's orders. -/
theorem pieces_added_eq (as : List MartAction) (s : MartState)
    (hC : Runs.Meets martStep Orderly .empty as) (hrun : Runs.run martStep .empty as = some s)
    (customer productId : String) :
    ∃ keys : Finset String, (∀ key, (s.orders key).isSome ↔ key ∈ keys)
      ∧ MartState.empty.added as customer productId
        = ((s.linesOf customer).map (OrderModel.piecesOf productId)).sum
          + ∑ key ∈ keys,
            ((s.linesBought customer key).map (OrderModel.piecesOf productId)).sum := by
  obtain ⟨t, ht, h⟩ := isSimulation.run Reflects.empty hC hrun
  refine ⟨t.orders.support, fun key => ?_, ?_⟩
  · rw [(h.orders key).isSome_iff, Finsupp.mem_support_iff]
  · have hheld := Mart.held_run customer (Item.piecesOf productId) ht
    have hempty : Mart.empty.held customer (Item.piecesOf productId) = 0 := by
      show (Multiset.map _ 0).sum + Finsupp.sum 0 _ = 0
      rw [Multiset.map_zero, Multiset.sum_zero, Finsupp.sum_zero_index, add_zero]
    have hbasket : ((t.basket customer).map (Item.piecesOf productId)).sum
        = ((s.linesOf customer).map (OrderModel.piecesOf productId)).sum := by
      rw [h.basket customer, Multiset.map_coe, Multiset.sum_coe, List.map_map]
      rfl
    have hordered : t.ordered (Entry.heldBy customer (Item.piecesOf productId))
        = ∑ key ∈ t.orders.support,
          ((s.linesBought customer key).map (OrderModel.piecesOf productId)).sum :=
      Finset.sum_congr rfl (fun key _ => (h.orders key).sum_heldBy customer productId)
    rw [hempty, zero_add, Mart.held, hbasket, hordered] at hheld
    exact hheld.symm

/-- The law at work. -/
theorem pieces_added_eq_boughtAndSent : ∃ s, Runs.run martStep .empty boughtAndSent = some s
    ∧ ∃ keys : Finset String, (∀ key, (s.orders key).isSome ↔ key ∈ keys)
      ∧ MartState.empty.added boughtAndSent "u" "p"
        = ((s.linesOf "u").map (OrderModel.piecesOf "p")).sum
          + ∑ key ∈ keys, ((s.linesBought "u" key).map (OrderModel.piecesOf "p")).sum :=
  ⟨_, (Option.some_get isSome_boughtAndSent).symm,
    pieces_added_eq _ _ (by decide +kernel) (Option.some_get isSome_boughtAndSent).symm "u" "p"⟩

/-- **What has been dispatched of an order is what its document says.** In any
orderly run the delivered quantity of an order is the sum of the amounts
dispatched of it, and of what its lines say has been dispatched, and it is at
most what was ordered. -/
theorem dispatched_eq (as : List MartAction) (s : MartState)
    (hC : Runs.Meets martStep Orderly .empty as) (hrun : Runs.run martStep .empty as = some s)
    (key : String) (m : OrderCartModel)
    (hm : (s.orders key).bind OrderCartModel.fromMap = some m) :
    m.deliveredQuantity.toInt = MartState.empty.dispatched as key
      ∧ amountSum OrderModel.dispatched m.items = MartState.empty.dispatched as key
      ∧ m.totalQuantity.toInt = amountSum OrderModel.quantity m.items
      ∧ m.deliveredQuantity.toInt ≤ m.totalQuantity.toInt := by
  obtain ⟨t, ht, h⟩ := isSimulation.run Reflects.empty hC hrun
  have hsent := Mart.sentUnder_run key ht
  rw [show Mart.empty.sentUnder key = 0 from rfl, zero_add] at hsent
  have hstands := h.orders key
  generalize hes : t.orders key = es at hstands
  generalize s.orders key = doc at hm hstands
  cases hstands with
  | none => exact nomatch hm
  | order m₀ m' hid hledger hwithin hne =>
    rw [Option.bind_some, OrderCartModel.fromMap_toMap] at hm
    obtain rfl := Option.some.inj hm
    have hsum : amountSum OrderModel.dispatched m'.items = MartState.empty.dispatched as key := by
      rw [MartState.dispatched, ← hsent, Mart.sentUnder, hes, Multiset.map_coe, Multiset.sum_coe,
        List.map_map, amountSum_eq_sum_toNat hledger.nonneg]
      rfl
    refine ⟨hledger.dispatches ▸ hsum, hsum, hledger.quantities.symm, ?_⟩
    rw [← hledger.dispatches, ← hledger.quantities]
    exact amountSum_le hwithin

/-- There is an order where it is placed. -/
theorem isSome_order_boughtAndSent :
    (((Runs.run martStep .empty boughtAndSent).bind (fun s => s.orders "1")).bind
      OrderCartModel.fromMap).isSome = true := by
  decide +kernel

/-- The law at work. -/
theorem dispatched_eq_boughtAndSent : ∃ s m, Runs.run martStep .empty boughtAndSent = some s
    ∧ (s.orders "1").bind OrderCartModel.fromMap = some m
    ∧ m.deliveredQuantity.toInt = MartState.empty.dispatched boughtAndSent "1"
    ∧ amountSum OrderModel.dispatched m.items = MartState.empty.dispatched boughtAndSent "1"
    ∧ m.totalQuantity.toInt = amountSum OrderModel.quantity m.items
    ∧ m.deliveredQuantity.toInt ≤ m.totalQuantity.toInt := by
  have hrun := (Option.some_get isSome_boughtAndSent).symm
  obtain ⟨m, hm⟩ := Option.isSome_iff_exists.mp isSome_order_boughtAndSent
  rw [hrun, Option.bind_some] at hm
  exact ⟨_, m, hrun, hm, dispatched_eq _ _ (by decide +kernel) hrun "1" m hm⟩
