import Enmart.Orders.Ledger

/-!
# What the dialog lets through

The dialog is offered on a line whose dispatched count is not its quantity,
and its field keeps digits only. It does not compare the amount typed with
what remains of the line. An amount above it takes the line past its
quantity – or, where the sum leaves the 64-bit range, below zero – and the
excess counts towards the order's total, so the order may be *delivered*
while another line is short (`delivered_short`).

No other step does that: as long as the amounts typed stay within what
remains, every line stays within its quantity, and equal totals of counts
that are nowhere above the quantities mean equality line by line. So the law
holds along a run exactly when every amount typed in it is at most what
remains (`no_overdispatch_iff`).
-/

open Firestore SetArray

/-! ## Text of digits -/

/-- What the field lets through: digits, at least one. -/
def IsDigits (text : String) : Prop :=
  text.toList ≠ [] ∧ text.toList.all Char.isDigit = true

instance (text : String) : Decidable (IsDigits text) :=
  inferInstanceAs (Decidable (_ ∧ _))

/-- **Digits spell no negative number.** -/
theorem IsDigits.nonneg {text : String} (h : IsDigits text) {n : Int64}
    (hn : intTryParse text = some n) : 0 ≤ n.toInt := by
  have hdigits : ∀ c ∈ text.toList, c.isDigit = true := List.all_eq_true.mp h.2
  have hspace : ∀ c ∈ text.toList, isWhitespace c = false :=
    fun c hc => isWhitespace_of_isDigit (hdigits c hc)
  unfold intTryParse at hn
  rw [trimWhitespace_of_forall hspace, parseLiteral_of_forall hdigits] at hn
  obtain ⟨k, -, hk⟩ := Option.bind_eq_some_iff.mp hn
  by_cases hfit : Int64.Fits (k : ℤ)
  · have hof : some (Int64.ofInt k) = some n := by
      rw [← hk]
      exact (if_pos hfit).symm
    rw [← Option.some.inj hof,
      Int64.toInt_ofInt_of_le hfit.1 hfit.2]
    exact Int.natCast_nonneg k
  · have hnone : none = some n := by
      rw [← hk]
      exact (if_neg hfit).symm
    exact absurd hnone (by simp)

/-! ## Dispatches entered through the dialog -/

/-- **A dispatch entered through the dialog**: opened on a line of the order
as stored on which it is offered, with the text typed. -/
def dialogStep (doc : Fields) (a : OrderModel × String) : Option Fields := do
  let m ← OrderCartModel.fromMap doc
  if a.fst ∈ m.items ∧ dispatchOffered a.fst = true ∧ IsDigits a.snd then
    let c ← QuantityUpdate.updateMethod ⟨a.fst, m⟩ a.snd
    some (updateDispatchAmount c doc)
  else none

/-- The same dispatch, on the order its document stands for. -/
def OrderCartModel.dialogStep (m : OrderCartModel) (a : OrderModel × String) :
    Option OrderCartModel :=
  if a.fst ∈ m.items ∧ dispatchOffered a.fst = true ∧ IsDigits a.snd then
    (QuantityUpdate.updateMethod ⟨a.fst, m⟩ a.snd).map m.dispatch
  else none

/-- **A dispatch on a document that stands for an order is one on the
order.** -/
theorem dialogStep_toMap (m : OrderCartModel) (a : OrderModel × String) :
    dialogStep m.toMap a = (m.dialogStep a).map OrderCartModel.toMap := by
  unfold dialogStep OrderCartModel.dialogStep
  rw [OrderCartModel.fromMap_toMap]
  show (if a.fst ∈ m.items ∧ _ then _ else none) = _
  by_cases h : a.fst ∈ m.items ∧ dispatchOffered a.fst = true ∧ IsDigits a.snd
  · rw [if_pos h, if_pos h]
    cases QuantityUpdate.updateMethod ⟨a.fst, m⟩ a.snd with
    | none => rfl
    | some c =>
      exact congrArg some (OrderCartModel.updateDispatchAmount_toMap m c)
  · rw [if_neg h, if_neg h]
    rfl

/-- **What one dispatch through the dialog does**: the line is in the order,
the text spells an amount, and the order is the one the call leaves. -/
theorem OrderCartModel.dialogStep_eq_some {m m' : OrderCartModel}
    {a : OrderModel × String} (h : m.dialogStep a = some m') :
    a.fst ∈ m.items ∧ ∃ n, intTryParse a.snd = some n ∧ 0 ≤ n.toInt
      ∧ m' = m.dispatch (QuantityUpdate.call ⟨a.fst, m⟩ n) := by
  unfold OrderCartModel.dialogStep at h
  by_cases hg : a.fst ∈ m.items ∧ dispatchOffered a.fst = true ∧ IsDigits a.snd
  · rw [if_pos hg] at h
    obtain ⟨c, hc, rfl⟩ := Option.map_eq_some_iff.mp h
    obtain ⟨n, hn, rfl⟩ := Option.map_eq_some_iff.mp hc
    exact ⟨hg.1, n, hn, hg.2.2.nonneg hn, rfl⟩
  · rw [if_neg hg] at h
    exact absurd h (by simp)

/-! ## The law -/

/-- **No line is over-dispatched, and delivered means everything was
sent.** -/
structure NoOverdispatch (m : OrderCartModel) : Prop where
  /-- No count is negative. -/
  nonneg : ∀ e ∈ m.items, 0 ≤ e.dispatched.toInt
  /-- No count is above the quantity. -/
  within : ∀ e ∈ m.items, e.dispatched.toInt ≤ e.quantity.toInt
  /-- The order is delivered when every line is, and only then. -/
  delivered : m.status = .delivered ↔ ∀ e ∈ m.items, e.dispatched = e.quantity

/-- The law holds of a document when it does of the order it stands for. -/
def DocNoOverdispatch (doc : Fields) : Prop :=
  ∃ m, OrderCartModel.fromMap doc = some m ∧ NoOverdispatch m

/-- The law of a document is the law of the order it stands for. -/
theorem docNoOverdispatch_toMap (m : OrderCartModel) :
    DocNoOverdispatch m.toMap ↔ NoOverdispatch m :=
  m.exists_fromMap_toMap NoOverdispatch

/-- **The amount typed is at most what remains of the line.** -/
def WithinRemaining (a : OrderModel × String) : Prop :=
  ∀ n, intTryParse a.snd = some n →
    n.toInt ≤ a.fst.quantity.toInt - a.fst.dispatched.toInt

/-- **In a ledger whose lines are within their quantities the status is
right**: equal totals are equal counts on every line. -/
theorem IsLedgerOf.noOverdispatch {m₀ m : OrderCartModel} (h : IsLedgerOf m₀ m)
    (hw : ∀ e ∈ m.items, e.dispatched.toInt ≤ e.quantity.toInt) :
    NoOverdispatch m := by
  refine ⟨h.nonneg, hw, ?_⟩
  rw [h.status]
  constructor
  · intro hs
    by_cases hd : m.deliveredQuantity = m.totalQuantity
    · refine eq_of_amountSum_eq hw ?_
      rw [h.dispatches, h.quantities, hd]
    · rw [if_neg hd] at hs
      exact absurd hs (by decide)
  · intro he
    have hsum : m.deliveredQuantity.toInt = m.totalQuantity.toInt := by
      rw [← h.dispatches, ← h.quantities]
      exact amountSum_congr he
    rw [if_pos (Int64.toInt_inj.mp hsum)]

/-- In a ledger whose lines are within their quantities, an amount within
what remains of a line fits the order's total. -/
theorem IsLedgerOf.delivered_add_le {m₀ m : OrderCartModel} (h : IsLedgerOf m₀ m)
    (hw : ∀ e ∈ m.items, e.dispatched.toInt ≤ e.quantity.toInt)
    {e : OrderModel} (he : e ∈ m.items) {n : Int64}
    (hn : n.toInt ≤ e.quantity.toInt - e.dispatched.toInt) :
    m.deliveredQuantity.toInt + n.toInt ≤ m.totalQuantity.toInt := by
  have hperm := perm_cons_remove OrderModel.orderId (h.entries_self he)
  have hrest : amountSum OrderModel.dispatched (remove m.items [e])
      ≤ amountSum OrderModel.quantity (remove m.items [e]) :=
    amountSum_le (fun x hx => hw x (mem_remove.mp hx).1)
  rw [← h.dispatches, ← h.quantities, amountSum_perm _ hperm,
    amountSum_perm OrderModel.quantity hperm, amountSum_cons, amountSum_cons]
  omega

/-- **An amount within what remains keeps every line within its quantity**,
and the ledger. -/
theorem IsLedgerOf.dispatch_within {m₀ m : OrderCartModel} (h : IsLedgerOf m₀ m)
    (hw : ∀ e ∈ m.items, e.dispatched.toInt ≤ e.quantity.toInt)
    {e : OrderModel} (he : e ∈ m.items) {n : Int64} (hnn : 0 ≤ n.toInt)
    (hn : n.toInt ≤ e.quantity.toInt - e.dispatched.toInt) :
    IsLedgerOf m₀ (m.dispatch (QuantityUpdate.call ⟨e, m⟩ n))
      ∧ ∀ x ∈ (m.dispatch (QuantityUpdate.call ⟨e, m⟩ n)).items,
        x.dispatched.toInt ≤ x.quantity.toInt := by
  have hfit := h.delivered_add_le hw he hn
  have htotal := m.totalQuantity.toInt_lt
  refine ⟨h.dispatch he hnn (by omega), fun x hx => ?_⟩
  rcases OrderCartModel.mem_dispatch hx with hx | rfl
  · exact hw x hx
  · have hq := e.quantity.toInt_lt
    have hd := h.nonneg e he
    show (e.dispatched + n).toInt ≤ e.quantity.toInt
    rw [Int64.toInt_add_of_fits ⟨by omega, by omega⟩]
    omega

/-- **An amount above what remains breaks the law**: the line's new count is
above its quantity, or has wrapped below zero. -/
theorem IsLedgerOf.not_noOverdispatch {m₀ m : OrderCartModel} (h : IsLedgerOf m₀ m)
    {e : OrderModel} (he : e ∈ m.items) {n : Int64} (hnn : 0 ≤ n.toInt)
    (hn : ¬ n.toInt ≤ e.quantity.toInt - e.dispatched.toInt) :
    ¬ NoOverdispatch (m.dispatch (QuantityUpdate.call ⟨e, m⟩ n)) := by
  intro hlaw
  have hd := h.nonneg e he
  have hnew : e.withDispatched (e.dispatched + n)
      ∈ (m.dispatch (QuantityUpdate.call ⟨e, m⟩ n)).items :=
    mem_union_singleton.mpr (Or.inr rfl)
  by_cases hfit : Int64.Fits (e.dispatched.toInt + n.toInt)
  · have hle := hlaw.within _ hnew
    rw [OrderModel.withDispatched_dispatched, OrderModel.withDispatched_quantity,
      Int64.toInt_add_of_fits hfit] at hle
    omega
  · have hneg := Int64.toInt_add_neg_of_not_fits hd hnn hfit
    have hpos := hlaw.nonneg _ hnew
    rw [OrderModel.withDispatched_dispatched] at hpos
    omega

/-- **The law of the dialog, and exactly when it holds.** Along any run of
dispatches entered through the dialog, one after the other, on an order
checkout placed, every line stays within its quantity and the order is
delivered exactly when every line is, if and only if each amount typed is at
most what remained of its line. -/
theorem no_overdispatch_iff (c : Cart) (uid : String) (dt : DateTime)
    (hpieces : c.pieces < 2 ^ 63) (as : List (OrderModel × String)) :
    Runs.Along dialogStep DocNoOverdispatch (c.order uid dt).toMap as
      ↔ Runs.Meets dialogStep (fun _ a => WithinRemaining a)
          (c.order uid dt).toMap as := by
  rw [Runs.along_map dialogStep_toMap, Runs.meets_map dialogStep_toMap]
  have hlaw : (fun m : OrderCartModel => DocNoOverdispatch m.toMap) = NoOverdispatch :=
    funext (fun m => propext (docNoOverdispatch_toMap m))
  rw [hlaw]
  -- the invariant: a ledger, with every line within its quantity
  refine Runs.along_iff_meets
    (I := fun m => IsLedgerOf (c.order uid dt) m
      ∧ ∀ e ∈ m.items, e.dispatched.toInt ≤ e.quantity.toInt)
    (fun m h => h.1.noOverdispatch h.2) ?_ ?_ ⟨c.isLedgerOf_order uid dt hpieces, ?_⟩
  · rintro m a m' ⟨hledger, hw⟩ hC hstep
    obtain ⟨he, n, hn, hnn, rfl⟩ := OrderCartModel.dialogStep_eq_some hstep
    exact hledger.dispatch_within hw he hnn (hC n hn)
  · rintro m a m' ⟨hledger, hw⟩ hC hstep
    obtain ⟨he, n, hn, hnn, rfl⟩ := OrderCartModel.dialogStep_eq_some hstep
    refine hledger.not_noOverdispatch he hnn (fun hle => hC (fun n' hn' => ?_))
    rw [hn] at hn'
    obtain rfl := Option.some.inj hn'
    exact hle
  · intro e he
    have hline := c.isCartLine e he
    rw [hline.dispatched, Int64.toInt_zero]
    have := hline.quantity
    omega

/-- The law at work: two lines of two pieces, dispatched in two amounts. -/
theorem no_overdispatch_iff_pair :
    Runs.Along dialogStep DocNoOverdispatch
        (cartToOrder "u" ⟨0⟩ [cartLine "1" 2, cartLine "2" 2]).toMap
        [(cartLine "1" 2, "2"), (cartLine "2" 2, "2")]
      ↔ Runs.Meets dialogStep (fun _ a => WithinRemaining a)
          (cartToOrder "u" ⟨0⟩ [cartLine "1" 2, cartLine "2" 2]).toMap
          [(cartLine "1" 2, "2"), (cartLine "2" 2, "2")] :=
  no_overdispatch_iff
    (Cart.pair (cartLine "1" 2) (cartLine "2" 2) (by decide) (by decide) (by decide))
    "u" ⟨0⟩ (by decide) [(cartLine "1" 2, "2"), (cartLine "2" 2, "2")]

/-- **Delivered, and short**: of two lines of two pieces each, four pieces of
the first are dispatched. Its count is four of two, and the order is
delivered with nothing of the second line sent. -/
theorem delivered_short :
    ¬ ∀ (c : Cart) (uid : String) (dt : DateTime) (as : List (OrderModel × String)),
      Runs.Along dialogStep DocNoOverdispatch (c.order uid dt).toMap as := by
  intro h
  let c := Cart.pair (cartLine "1" 2) (cartLine "2" 2) (by decide) (by decide) (by decide)
  let m : OrderCartModel :=
    { c.order "u" ⟨0⟩ with
      status := .delivered
      items := [cartLine "2" 2, (cartLine "1" 2).withDispatched 4]
      deliveredQuantity := 4 }
  have hrun : Runs.run dialogStep (c.order "u" ⟨0⟩).toMap [(cartLine "1" 2, "4")]
      = some m.toMap := by decide +kernel
  have hlaw := (docNoOverdispatch_toMap m).mp
    ((h c "u" ⟨0⟩ [(cartLine "1" 2, "4")]).last hrun)
  exact absurd (hlaw.delivered.mp rfl) (by decide)
