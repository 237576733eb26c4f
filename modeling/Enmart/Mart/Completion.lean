import Enmart.Mart.Run

/-!
# An order until it is delivered

The pages of orders are queries on the stored status, and the dialog is
offered line by line, on counts. In an orderly run of a mart the two agree: an
order is on the pending pages while a line of it has the dialog, and on the
delivered ones when none does (`orders_pages`). So there is always a way on – one
dispatch for each line that has the dialog (`can_be_delivered`) – it ends, for
every piece is dispatched once (`dispatches_le`), and where it ends the order
stays as it is, whatever happens in the mart (`delivered_stays`).
-/

open Firestore SetArray

/-! ## The pages of orders -/

/-- The pages behind the segmented control. -/
inductive OrdersTab where
  | all
  | pending
  | finished
  deriving DecidableEq, Repr

/-- Whose page of orders it is. -/
inductive OrdersPage where
  | adminOrders
  | userOrders (uid : String)
  deriving DecidableEq, Repr

/-- The status a page asks for. -/
def OrdersTab.status? : OrdersTab → Option OrderStatus
  | all => none
  | pending => some .pending
  | finished => some .delivered

namespace OrdersPage

/-- **The query behind a page**: the fields an order must have. -/
def query (p : OrdersPage) (tab : OrdersTab) : List (String × Value) :=
  (match p with
    | adminOrders => []
    | userOrders uid => [("uid", .string uid)])
  ++ (tab.status?.map (fun status => ("status", Value.string status.toText))).toList

/-- The page as `AllOrders` knows it. -/
def isUser : OrdersPage → Bool
  | adminOrders => false
  | userOrders _ => true

/-- Whether a line has the icon that opens the dialog. -/
def trailing (p : OrdersPage) (e : OrderModel) : Bool :=
  !(decide (e.dispatched = e.quantity) || p.isUser)

end OrdersPage

/-- **A document the query returns**: it has each of the fields. -/
def Firestore.Fields.IsEqualTo (doc : Fields) (query : List (String × Value)) : Prop :=
  ∀ f ∈ query, doc.get? f.fst = some f.snd

/-- An administrator's line has the icon where the dialog is offered. -/
theorem OrdersPage.trailing_adminOrders (e : OrderModel) :
    OrdersPage.adminOrders.trailing e = dispatchOffered e := by
  show (!(decide (e.dispatched = e.quantity) || false)) = decide (e.dispatched ≠ e.quantity)
  rw [Bool.or_false, decide_not]

/-- Whether a page is one of the orders of a customer. -/
def OrdersPage.Sees : OrdersPage → OrderCartModel → Prop
  | adminOrders, _ => True
  | userOrders uid, m => m.uid = uid

/-- What is on a page, by the lines. -/
def OrdersTab.Shows : OrdersTab → OrderCartModel → Prop
  | all, _ => True
  | pending, m => ∃ e ∈ m.items, OrdersPage.adminOrders.trailing e = true
  | finished, m => ∀ e ∈ m.items, OrdersPage.adminOrders.trailing e = false

/-- A status that is asked for. -/
theorem OrdersTab.forall_status (status : OrderStatus) (P : OrderStatus → Prop) :
    (∀ x ∈ some status, P x) ↔ P status := by
  simp

/-- **What a page's query returns of the orders.** -/
theorem OrderCartModel.isEqualTo_query (m : OrderCartModel) (p : OrdersPage) (tab : OrdersTab) :
    Fields.IsEqualTo m.toMap (p.query tab)
      ↔ p.Sees m ∧ ∀ status ∈ tab.status?, m.status = status := by
  have huid (uid : String) : Fields.get? m.toMap "uid" = some (.string uid) ↔ m.uid = uid := by
    simp [toMap, Fields.get?_cons]
  have hstatus (status : OrderStatus) :
      Fields.get? m.toMap "status" = some (.string status.toText) ↔ m.status = status := by
    have htext : m.status.toText = status.toText ↔ m.status = status :=
      ⟨fun h => by rw [← stringToStatusEnum_toText m.status, h, stringToStatusEnum_toText],
        fun h => by rw [h]⟩
    simp [toMap, Fields.get?_cons, htext]
  refine List.forall_mem_append.trans (and_congr ?_ ?_)
  · cases p with
    | adminOrders => exact iff_of_true (fun _ hf => absurd hf List.not_mem_nil) trivial
    | userOrders uid => exact List.forall_mem_singleton.trans (huid uid)
  · cases tab.status? with
    | none => exact iff_of_true (fun _ hf => absurd hf List.not_mem_nil) (fun x h => absurd h (Option.not_mem_none x))
    | some status =>
      have hstored := hstatus status
      rw [← OrdersTab.forall_status status (fun x => m.status = x)] at hstored
      exact List.forall_mem_singleton.trans hstored

/-! ## The orders of a mart -/

namespace Reflects

variable {s s' : MartState} {t t' : Mart} {key : String} {m : OrderCartModel}

/-- **The order stored under a key.** -/
theorem order_of (h : Reflects s t) (hm : (s.orders key).bind OrderCartModel.fromMap = some m) :
    ∃ m₀, s.orders key = some m.toMap ∧ m.id = key ∧ IsLedgerOf m₀ m
      ∧ (∀ e ∈ m.items, e.dispatched.toInt ≤ e.quantity.toInt)
      ∧ t.orders key = (m.items.map (OrderModel.entry m.uid) : Multiset Entry) := by
  have hstands := h.orders key
  generalize hdoc : s.orders key = doc at hm hstands
  generalize t.orders key = es at hstands
  cases hstands with
  | none => exact nomatch hm
  | order m₀ m' hid hledger hwithin hne =>
    rw [Option.bind_some, OrderCartModel.fromMap_toMap] at hm
    obtain rfl := Option.some.inj hm
    exact ⟨m₀, rfl, hid, hledger, hwithin, rfl⟩

/-- Every document stands for an order. -/
theorem exists_order (h : Reflects s t) {doc : Fields} (hdoc : s.orders key = some doc) :
    ∃ m, (s.orders key).bind OrderCartModel.fromMap = some m := by
  have hstands := h.orders key
  rw [hdoc] at hstands ⊢
  generalize t.orders key = es at hstands
  cases hstands with
  | order m₀ m hid hledger hwithin hne => exact ⟨m, OrderCartModel.fromMap_toMap m⟩

/-- What is not delivered of an order remains to be sent. -/
theorem remainingUnder_eq (h : Reflects s t)
    (hm : (s.orders key).bind OrderCartModel.fromMap = some m) :
    (t.remainingUnder key : ℤ) = m.totalQuantity.toInt - m.deliveredQuantity.toInt := by
  obtain ⟨m₀, -, -, hledger, hwithin, hentries⟩ := h.order_of hm
  rw [← hledger.dispatches, ← hledger.quantities, Mart.remainingUnder, hentries,
    Multiset.map_coe, Multiset.sum_coe, List.map_map]
  generalize m.items = items at hwithin
  induction items with
  | nil => rfl
  | cons e items ih =>
    have hle := hwithin e List.mem_cons_self
    have hrest := ih (fun x hx => hwithin x (List.mem_cons_of_mem e hx))
    rw [List.map_cons, List.sum_cons, amountSum_cons, amountSum_cons]
    show (((e.quantity.toInt - e.dispatched.toInt).toNat + _ : ℕ) : ℤ) = _
    omega

/-- Something was ordered under the key of an order. -/
theorem orders_ne_zero (h : Reflects s t)
    (hm : (s.orders key).bind OrderCartModel.fromMap = some m) : t.orders key ≠ 0 := by
  obtain ⟨-, hdoc, -⟩ := h.order_of hm
  refine (h.orders key).isSome_iff.mp ?_
  rw [hdoc]
  rfl

end Reflects

/-- A line that has no icon has been dispatched. -/
theorem OrdersPage.trailing_adminOrders_eq_false {e : OrderModel} :
    OrdersPage.adminOrders.trailing e = false ↔ e.dispatched = e.quantity := by
  rw [trailing_adminOrders, dispatchOffered, decide_eq_false_iff_not, not_not]

/-- **The status tells which lines have the icon**, in a ledger whose lines are
within their quantities. -/
theorem IsLedgerOf.shows_iff {m₀ m : OrderCartModel} (h : IsLedgerOf m₀ m)
    (hw : ∀ e ∈ m.items, e.dispatched.toInt ≤ e.quantity.toInt) (tab : OrdersTab) :
    tab.Shows m ↔ ∀ status ∈ tab.status?, m.status = status := by
  have hfinished : (∀ e ∈ m.items, OrdersPage.adminOrders.trailing e = false)
      ↔ m.status = .delivered := by
    rw [(h.noOverdispatch hw).delivered]
    exact forall₂_congr (fun _ _ => OrdersPage.trailing_adminOrders_eq_false)
  cases tab with
  | all => exact iff_of_true trivial (fun _ h => nomatch h)
  | pending =>
    have hstatus : m.status = .pending ↔ ¬ m.status = .delivered := by
      rw [h.status]
      split <;> decide
    show (∃ e ∈ m.items, OrdersPage.adminOrders.trailing e = true)
      ↔ ∀ status ∈ some OrderStatus.pending, m.status = status
    rw [OrdersTab.forall_status, hstatus, ← hfinished]
    push Not
    simp only [ne_eq, Bool.not_eq_false]
  | finished => exact hfinished.trans (OrdersTab.forall_status _ _).symm

/-- **The pages of orders.** In any orderly run every stored order can be read,
and a page returns it exactly when it is the page of an administrator or of the
customer who bought, and the page of all orders, or the pending page and a line
of the order has the icon that opens the dialog, or the delivered page and none
has. -/
theorem orders_pages (as : List MartAction) (s : MartState)
    (hC : Runs.Meets martStep Orderly .empty as) (hrun : Runs.run martStep .empty as = some s)
    (key : String) (doc : Fields) (hdoc : s.orders key = some doc) :
    ∃ m, OrderCartModel.fromMap doc = some m ∧ ∀ (p : OrdersPage) (tab : OrdersTab),
      Fields.IsEqualTo doc (p.query tab) ↔ p.Sees m ∧ tab.Shows m := by
  obtain ⟨t, -, h⟩ := isSimulation.run Reflects.empty hC hrun
  obtain ⟨m, hm⟩ := h.exists_order hdoc
  obtain ⟨m₀, hm', -, hledger, hwithin, -⟩ := h.order_of hm
  rw [hdoc] at hm hm'
  obtain rfl := Option.some.inj hm'
  refine ⟨m, hm, fun p tab => ?_⟩
  rw [m.isEqualTo_query, hledger.shows_iff hwithin]

/-- The law at work. -/
theorem orders_pages_boughtAndSent : ∃ s doc, Runs.run martStep .empty boughtAndSent = some s
    ∧ s.orders "1" = some doc ∧ ∃ m, OrderCartModel.fromMap doc = some m
      ∧ ∀ (p : OrdersPage) (tab : OrdersTab),
        Fields.IsEqualTo doc (p.query tab) ↔ p.Sees m ∧ tab.Shows m := by
  have hrun := (Option.some_get isSome_boughtAndSent).symm
  obtain ⟨m, hm⟩ := Option.isSome_iff_exists.mp isSome_order_boughtAndSent
  rw [hrun, Option.bind_some] at hm
  obtain ⟨doc, hdoc, -⟩ := Option.bind_eq_some_iff.mp hm
  exact ⟨_, doc, hrun, hdoc, orders_pages _ _ (by decide +kernel) hrun "1" doc hdoc⟩

/-! ## Delivered is final -/

/-- **A step leaves a delivered order as it is.** -/
theorem Reflects.orders_of_delivered {s s' : MartState} {t : Mart} {key : String}
    {m : OrderCartModel} (h : Reflects s t)
    (hm : (s.orders key).bind OrderCartModel.fromMap = some m) (hd : m.status = .delivered)
    {a : MartAction} (hC : Orderly s a) (hstep : martStep s a = some s') :
    s'.orders key = s.orders key := by
  obtain ⟨m₀, hdoc, -, hledger, hwithin, -⟩ := h.order_of hm
  cases a with
  | openApp device =>
    cases hauth : s.authUser device with
    | none =>
      simp only [martStep, hauth] at hstep
      obtain rfl := Option.some.inj hstep
      rfl
    | some uid =>
      simp only [martStep, hauth] at hstep
      obtain ⟨products, -, rfl⟩ := Option.map_eq_some_iff.mp hstep
      rfl
  | login device uid =>
    obtain rfl := Option.some.inj hstep
    rfl
  | signOut device =>
    obtain rfl := Option.some.inj hstep
    rfl
  | addToCart device productId n now now' =>
    obtain ⟨uid, -, hstep⟩ := Option.bind_eq_some_iff.mp hstep
    obtain ⟨order, -, hstep⟩ := Option.bind_eq_some_iff.mp hstep
    obtain rfl := Option.some.inj hstep
    rfl
  | checkout device dt =>
    obtain ⟨uid, -, hstep⟩ := Option.bind_eq_some_iff.mp hstep
    obtain ⟨-, hstep⟩ := Option.ite_none_left_eq_some.mp hstep
    obtain rfl := Option.some.inj hstep
    have hkey : key ≠ orderKey dt := fun hk => by
      rw [hk, hC.2.1] at hdoc
      exact absurd hdoc.symm (Option.some_ne_none _)
    exact Function.update_of_ne hkey _ _
  | dispatch key' e text =>
    obtain ⟨doc, hdoc', hstep⟩ := Option.bind_eq_some_iff.mp hstep
    obtain ⟨doc', hdialog, hstep⟩ := Option.bind_eq_some_iff.mp hstep
    obtain rfl := Option.some.inj hstep
    refine Function.update_of_ne (fun hk => ?_) _ _
    subst hk
    -- the dialog is offered on no line of a delivered order
    rw [hdoc] at hdoc'
    obtain rfl := Option.some.inj hdoc'
    rw [dialogStep_toMap] at hdialog
    obtain ⟨m', hm', -⟩ := Option.map_eq_some_iff.mp hdialog
    obtain ⟨⟨he, hoffered, -⟩, -⟩ := Option.ite_none_right_eq_some.mp hm'
    have hline := (hledger.noOverdispatch hwithin).delivered.mp hd e he
    rw [← OrdersPage.trailing_adminOrders, OrdersPage.trailing_adminOrders_eq_false.mpr hline]
      at hoffered
    exact absurd hoffered Bool.false_ne_true

/-- **Delivered is final.** In any orderly run, an order that is delivered is
stored as it is from then on. -/
theorem delivered_stays (as bs : List MartAction) (s s' : MartState)
    (hC : Runs.Meets martStep Orderly .empty as) (hrun : Runs.run martStep .empty as = some s)
    (key : String) (m : OrderCartModel)
    (hm : (s.orders key).bind OrderCartModel.fromMap = some m) (hd : m.status = .delivered)
    (hC' : Runs.Meets martStep Orderly s bs) (hrun' : Runs.run martStep s bs = some s') :
    s'.orders key = s.orders key := by
  obtain ⟨t, -, h⟩ := isSimulation.run Reflects.empty hC hrun
  refine (Runs.along_of_meets (I := fun s₁ => (∃ t, Reflects s₁ t) ∧ s₁.orders key = s.orders key)
    ?_ ⟨⟨t, h⟩, rfl⟩ hC').last hrun' |>.2
  rintro s₁ a s₂ ⟨⟨t₁, h₁⟩, hkey⟩ hCa hs₂
  obtain ⟨t₂, -, h₂⟩ := h₁.step hCa hs₂
  rw [← hkey] at hm
  exact ⟨⟨t₂, h₂⟩, (h₁.orders_of_delivered hm hd hCa hs₂).trans hkey⟩

/-- The other piece is sent too. -/
def sendTheOther : List MartAction := [.dispatch "1" ⟨"0", ⟨0⟩, .inCart, "p", 2, 1⟩ "1"]

/-- Both pieces are bought and sent. -/
def boughtAndDelivered : List MartAction := boughtAndSent ++ sendTheOther

/-- The customer buys again. -/
def buyAgain : List MartAction := [.addToCart 0 "q" twoPieces ⟨5⟩ ⟨5⟩, .checkout 0 ⟨2000⟩]

/-- The order whose two pieces are sent is delivered. -/
theorem status_boughtAndDelivered :
    (((Runs.run martStep .empty boughtAndDelivered).bind (fun s => s.orders "1")).bind
      OrderCartModel.fromMap).map OrderCartModel.status = some .delivered := by
  decide +kernel

/-- A customer whose order is delivered can buy again. -/
theorem isSome_buyAgain :
    ((Runs.run martStep .empty boughtAndDelivered).bind
      (fun s => Runs.run martStep s buyAgain)).isSome = true := by
  decide +kernel

/-- Buying, sending both pieces and buying again is orderly. -/
theorem meets_buyAgain :
    Runs.Meets martStep Orderly .empty (boughtAndDelivered ++ buyAgain) := by
  decide +kernel

/-- The law at work. -/
theorem delivered_stays_buyAgain : ∃ s s', Runs.run martStep .empty boughtAndDelivered = some s
    ∧ Runs.run martStep s buyAgain = some s' ∧ s'.orders "1" = s.orders "1" := by
  obtain ⟨s', hs'⟩ := Option.isSome_iff_exists.mp isSome_buyAgain
  obtain ⟨s, hs, hs'⟩ := Option.bind_eq_some_iff.mp hs'
  obtain ⟨m, hm, hd⟩ := Option.map_eq_some_iff.mp status_boughtAndDelivered
  rw [hs, Option.bind_some] at hm
  obtain ⟨hC, hC'⟩ := (Runs.meets_append hs).mp meets_buyAgain
  exact ⟨s, s', hs, hs', delivered_stays _ _ s s' hC hs "1" m hm hd hC' hs'⟩

/-! ## Every piece is dispatched once -/

/-- A dispatch of an order. -/
def MartAction.isDispatchOf (key : String) : MartAction → Bool
  | .dispatch k _ _ => k = key
  | _ => false

/-- An amount is typed that is not 0. -/
def MartAction.NotZero : MartAction → Prop
  | .dispatch _ _ text => intTryParse text ≠ some 0
  | _ => True

instance : (a : MartAction) → Decidable a.NotZero
  | .dispatch .. => inferInstanceAs (Decidable (_ ≠ _))
  | .openApp _ | .login _ _ | .signOut _ | .addToCart .. | .checkout .. => isTrue trivial

/-- A dispatch of some pieces sends some. -/
theorem one_le_sentOf_dispatch {s s' : MartState} {key : String} {a : MartAction}
    (hpos : a.NotZero) (hstep : martStep s a = some s') (ha : a.isDispatchOf key = true) :
    1 ≤ ((martEvents s a).map (MartEvent.sentOf key)).sum := by
  cases a with
  | dispatch key' e text =>
    obtain rfl : key' = key := of_decide_eq_true ha
    obtain ⟨doc, hdoc, hstep⟩ := Option.bind_eq_some_iff.mp hstep
    obtain ⟨doc', hdialog, -⟩ := Option.bind_eq_some_iff.mp hstep
    obtain ⟨m, hm, hdialog⟩ := Option.bind_eq_some_iff.mp hdialog
    obtain ⟨⟨-, -, hdigits⟩, hdialog⟩ := Option.ite_none_right_eq_some.mp hdialog
    obtain ⟨c, hc, -⟩ := Option.bind_eq_some_iff.mp hdialog
    obtain ⟨n, hn, -⟩ := Option.map_eq_some_iff.mp hc
    have hevents : martEvents s (.dispatch key' e text)
        = [.send key' (e.entry m.uid) n.toInt.toNat] := by
      show ((((s.orders key').bind _).bind _).toList : List MartEvent) = _
      rw [hdoc, Option.bind_some, hm, Option.bind_some, hn]
      rfl
    have hnn := hdigits.nonneg hn
    have hne : n.toInt ≠ 0 := fun hz => hpos (by
      rw [hn, Int64.toInt_inj.mp (hz.trans Int64.toInt_zero.symm)])
    rw [hevents]
    show 1 ≤ (if key' = key' then n.toInt.toNat else 0) + 0
    rw [if_pos rfl]
    omega
  | openApp | login | signOut | addToCart | checkout => exact nomatch ha

/-- **Every piece is dispatched once.** In any orderly run, from any moment on,
an order is dispatched from at most as often as it has pieces that have not been
dispatched, amounts of 0 aside – and by no more pieces than those. -/
theorem dispatches_le (as bs : List MartAction) (s s' : MartState)
    (hC : Runs.Meets martStep Orderly .empty as) (hrun : Runs.run martStep .empty as = some s)
    (hC' : Runs.Meets martStep Orderly s bs) (hrun' : Runs.run martStep s bs = some s')
    (key : String) (hpos : ∀ a ∈ bs, a.NotZero) (m : OrderCartModel)
    (hm : (s.orders key).bind OrderCartModel.fromMap = some m) :
    (bs.countP (MartAction.isDispatchOf key) : ℤ) ≤ s.dispatched bs key
      ∧ s.dispatched bs key ≤ m.totalQuantity.toInt - m.deliveredQuantity.toInt := by
  obtain ⟨t, -, h⟩ := isSimulation.run Reflects.empty hC hrun
  obtain ⟨t', ht', -⟩ := isSimulation.run h hC' hrun'
  have hmeets : Runs.Meets martStep (fun _ a => a.NotZero) s bs := Runs.meets_of_forall s hpos
  have hcount : bs.countP (MartAction.isDispatchOf key) ≤ s.dispatched bs key :=
    Runs.countP_le_sum_trace (fun _ _ _ hpos hstep => one_le_sentOf_dispatch hpos hstep)
      hmeets hrun'
  have hsent := Mart.remainingUnder_run (h.orders_ne_zero hm) ht'
  have hremaining := h.remainingUnder_eq hm
  refine ⟨Int.ofNat_le.mpr hcount, ?_⟩
  rw [← hremaining, ← hsent, MartState.dispatched]
  omega

/-- The law at work. -/
theorem dispatches_le_sendTheOther : ∃ s m, Runs.run martStep .empty boughtAndSent = some s
    ∧ (s.orders "1").bind OrderCartModel.fromMap = some m
    ∧ (sendTheOther.countP (MartAction.isDispatchOf "1") : ℤ) ≤ s.dispatched sendTheOther "1"
    ∧ s.dispatched sendTheOther "1" ≤ m.totalQuantity.toInt - m.deliveredQuantity.toInt := by
  have hrun := (Option.some_get isSome_boughtAndSent).symm
  obtain ⟨m, hm⟩ := Option.isSome_iff_exists.mp isSome_order_boughtAndSent
  rw [hrun, Option.bind_some] at hm
  have hmeets : Runs.Meets martStep Orderly .empty (boughtAndSent ++ sendTheOther) := by
    decide +kernel
  obtain ⟨hC, hC'⟩ := (Runs.meets_append hrun).mp hmeets
  have hsome : (Runs.run martStep .empty (boughtAndSent ++ sendTheOther)).isSome = true := by
    decide +kernel
  rw [Runs.run_append, hrun, Option.bind_some] at hsome
  have hpos : ∀ a ∈ sendTheOther, a.NotZero := by decide +kernel
  exact ⟨_, m, hrun, hm, dispatches_le _ sendTheOther _ _ hC hrun hC'
    (Option.some_get hsome).symm "1" hpos m hm⟩

/-! ## Every order can be delivered -/

/-- **A text that spells an integer that is not negative** gets through the
field. -/
theorem isDigits_toString {n : Int64} (h : 0 ≤ n.toInt) : IsDigits (toString n.toInt) := by
  have hlist : (toString n.toInt).toList = Nat.toDigits 10 n.toInt.toNat := by
    rw [Int.toString_eq_repr, Int.repr_eq_if, if_pos h, Nat.toList_repr]
  unfold IsDigits
  rw [hlist, List.all_eq_true]
  exact ⟨Nat.toDigits_ne_nil, fun c hc => Nat.isDigit_of_mem_toDigits (by decide) (by decide) hc⟩

namespace OrderCartModel

/-- The lines that have the icon. -/
def unsent (m : OrderCartModel) : List OrderModel := m.items.filter dispatchOffered

/-- **Dispatching all that remains of a line**: the order has one line fewer that
has the icon. -/
theorem dialogStep_all {m₀ m : OrderCartModel} (h : IsLedgerOf m₀ m)
    (hw : ∀ e ∈ m.items, e.dispatched.toInt ≤ e.quantity.toInt) {e : OrderModel}
    (he : e ∈ m.unsent) :
    ∃ text m', WithinRemaining (e, text) ∧ intTryParse text ≠ some 0
      ∧ m.dialogStep (e, text) = some m' ∧ m'.unsent.length + 1 = m.unsent.length
      ∧ IsLedgerOf m₀ m' ∧ ∀ x ∈ m'.items, x.dispatched.toInt ≤ x.quantity.toInt := by
  obtain ⟨he, hoffered⟩ := List.mem_filter.mp he
  have hne : e.dispatched ≠ e.quantity := of_decide_eq_true hoffered
  have hle := hw e he
  have hnn := h.nonneg e he
  have hlt := e.quantity.toInt_lt
  obtain ⟨n, hn⟩ : ∃ n : Int64, n.toInt = e.quantity.toInt - e.dispatched.toInt :=
    ⟨Int64.ofInt _, Int64.toInt_ofInt_of_le (by omega) (by omega)⟩
  have hsum : e.dispatched + n = e.quantity := Int64.toInt_inj.mp (by
    rw [Int64.toInt_add_of_fits ⟨by omega, by omega⟩]
    omega)
  have hread := intTryParse_toString n
  have hdigits : IsDigits (toString n.toInt) := isDigits_toString (by omega)
  obtain ⟨hledger', hwithin'⟩ := h.dispatch_within hw he (n := n) (by omega) (by omega)
  refine ⟨toString n.toInt, m.dispatch (QuantityUpdate.call ⟨e, m⟩ n), ?_, ?_, ?_, ?_,
    hledger', hwithin'⟩
  · intro n' hn'
    rw [hread] at hn'
    obtain rfl := Option.some.inj hn'
    exact hn.le
  · rw [hread]
    intro hz
    rw [Option.some.inj hz, Int64.toInt_zero] at hn
    exact hne (Int64.toInt_inj.mp (by omega))
  · rw [dialogStep, if_pos ⟨he, hoffered, hdigits⟩, QuantityUpdate.updateMethod, hread]
    rfl
  · have hself := h.entries_self he
    have hitems : (m.dispatch (QuantityUpdate.call ⟨e, m⟩ n)).items
        = remove m.items [e] ++ [e.withDispatched e.quantity] := by
      rw [← hsum]
      exact union_of_notMem (notMem_of_entries_eq_nil OrderModel.orderId
        (entries_remove_self OrderModel.orderId hself))
    have hsent : dispatchOffered (e.withDispatched e.quantity) = false := by
      show decide (e.quantity ≠ e.quantity) = false
      exact decide_eq_false (fun h => h rfl)
    have hperm := (perm_cons_remove OrderModel.orderId hself).filter dispatchOffered
    rw [unsent, unsent, hperm.length_eq, hitems, List.filter_append, List.filter_cons_of_pos hoffered,
      List.filter_cons_of_neg (by rw [hsent]; exact Bool.false_ne_true), List.filter_nil,
      List.append_nil, List.length_cons]

/-- **An order can be delivered**, by a dispatch for each line that has the
icon. -/
theorem exists_deliveries {m₀ m : OrderCartModel} (h : IsLedgerOf m₀ m)
    (hw : ∀ e ∈ m.items, e.dispatched.toInt ≤ e.quantity.toInt) :
    ∃ as m', as.length = m.unsent.length
      ∧ Runs.Meets dialogStep (fun _ a => WithinRemaining a) m as
      ∧ (∀ a ∈ as, intTryParse a.snd ≠ some 0)
      ∧ Runs.run dialogStep m as = some m' ∧ m'.status = .delivered := by
  -- by the number of lines that have the icon
  generalize hk : m.unsent.length = k
  induction k generalizing m with
  | zero =>
    refine ⟨[], m, rfl, trivial, fun _ ha => absurd ha List.not_mem_nil, rfl, ?_⟩
    refine (h.noOverdispatch hw).delivered.mpr (fun e he => ?_)
    have hnone := List.filter_eq_nil_iff.mp (List.length_eq_zero_iff.mp hk) e he
    exact not_not.mp (fun hne => hnone (decide_eq_true hne))
  | succ k ih =>
    obtain ⟨e, he⟩ := List.exists_mem_of_length_pos (by omega : 0 < m.unsent.length)
    obtain ⟨text, m₁, hwithin, hpos, hstep, hlength, hledger₁, hw₁⟩ := dialogStep_all h hw he
    obtain ⟨as, m', hlen, hmeets, hpositive, hrun, hstatus⟩ :=
      ih hledger₁ hw₁ (by omega)
    refine ⟨(e, text) :: as, m', congrArg Nat.succ hlen, fun s' hs' => ⟨hwithin, ?_⟩,
      List.forall_mem_cons.mpr ⟨hpos, hpositive⟩, ?_, hstatus⟩
    · rw [hstep] at hs'
      obtain rfl := Option.some.inj hs'
      exact hmeets
    · rw [Runs.run, hstep]
      exact hrun

end OrderCartModel

/-- The dispatches of one order, as the mart sees them. -/
theorem martStep_dispatch (s : MartState) (key : String) (m : OrderCartModel)
    (a : OrderModel × String) :
    martStep { s with orders := Function.update s.orders key (some m.toMap) }
        (.dispatch key a.fst a.snd)
      = (m.dialogStep a).map (fun m' =>
        { s with orders := Function.update s.orders key (some m'.toMap) }) := by
  have hself : Function.update s.orders key (some m.toMap) key = some m.toMap :=
    Function.update_self ..
  simp only [martStep, hself, Option.bind_eq_bind, Option.bind_some, dialogStep_toMap,
    Function.update_idem]
  cases m.dialogStep a <;> rfl

/-- **Every order can be delivered.** In any orderly run, from any moment on, as
many dispatches as there are lines with the icon, each of some pieces and within
what remains, deliver the order, and leave all other documents and every device
as they are. -/
theorem can_be_delivered (as : List MartAction) (s : MartState)
    (hC : Runs.Meets martStep Orderly .empty as) (hrun : Runs.run martStep .empty as = some s)
    (key : String) (m : OrderCartModel)
    (hm : (s.orders key).bind OrderCartModel.fromMap = some m) :
    ∃ (bs : List MartAction) (m' : OrderCartModel), bs.length = (m.items.filter OrdersPage.adminOrders.trailing).length
      ∧ (∀ a ∈ bs, a.isDispatchOf key = true ∧ a.NotZero)
      ∧ Runs.Meets martStep Orderly s bs
      ∧ Runs.run martStep s bs
        = some { s with orders := Function.update s.orders key (some m'.toMap) }
      ∧ m'.status = .delivered := by
  obtain ⟨t, -, h⟩ := isSimulation.run Reflects.empty hC hrun
  obtain ⟨m₀, hdoc, -, hledger, hwithin, -⟩ := h.order_of hm
  obtain ⟨as', m', hlength, hmeets, hpos, hrun', hstatus⟩ :=
    OrderCartModel.exists_deliveries hledger hwithin
  let act : OrderModel × String → MartAction := fun a => .dispatch key a.fst a.snd
  let state : OrderCartModel → MartState := fun m =>
    { s with orders := Function.update s.orders key (some m.toMap) }
  have hs : s = state m := by
    show s = { s with orders := Function.update s.orders key (some m.toMap) }
    rw [← hdoc, Function.update_eq_self]
  have hstep (m : OrderCartModel) (a : OrderModel × String) :
      martStep (state m) (act a) = (m.dialogStep a).map state := martStep_dispatch s key m a
  have htrailing : OrdersPage.adminOrders.trailing = dispatchOffered :=
    funext OrdersPage.trailing_adminOrders
  refine ⟨as'.map act, m', ?_, ?_, ?_, ?_, hstatus⟩
  · rw [List.length_map, hlength, htrailing]
    rfl
  · intro a ha
    obtain ⟨b, hb, rfl⟩ := List.mem_map.mp ha
    exact ⟨decide_eq_true rfl, hpos b hb⟩
  · rw [hs]
    exact (Runs.meets_actions act _ as').mpr ((Runs.meets_map hstep).mpr hmeets)
  · conv_lhs => rw [hs]
    rw [Runs.run_actions, Runs.run_map hstep, hrun']
    rfl

/-- The law at work. -/
theorem can_be_delivered_boughtAndSent : ∃ s m, Runs.run martStep .empty boughtAndSent = some s
    ∧ (s.orders "1").bind OrderCartModel.fromMap = some m
    ∧ ∃ (bs : List MartAction) (m' : OrderCartModel),
      bs.length = (m.items.filter OrdersPage.adminOrders.trailing).length
      ∧ (∀ a ∈ bs, a.isDispatchOf "1" = true ∧ a.NotZero)
      ∧ Runs.Meets martStep Orderly s bs
      ∧ Runs.run martStep s bs
        = some { s with orders := Function.update s.orders "1" (some m'.toMap) }
      ∧ m'.status = .delivered := by
  have hrun := (Option.some_get isSome_boughtAndSent).symm
  obtain ⟨m, hm⟩ := Option.isSome_iff_exists.mp isSome_order_boughtAndSent
  rw [hrun, Option.bind_some] at hm
  exact ⟨_, m, hrun, hm, can_be_delivered _ _ (by decide +kernel) hrun "1" m hm⟩
