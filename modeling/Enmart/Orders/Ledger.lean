import Enmart.Cart.Checkout
import Enmart.Orders.Dispatch

/-!
# The ledger of an order, one call at a time

An order document is a ledger: for each line that was ordered one entry, the
same but for what has been dispatched of it, the pieces ordered and the
pieces dispatched each equal to the sum over the entries, and the status
read off the two totals. `IsLedgerOf m₀ m` says this of an order `m` that the
order `m₀` has become.

A call made after the previous one finished, on the order as it is stored,
keeps it (`IsLedgerOf.dispatch`). What it needs is that the counts stay
within a word: a line's count is added up by the machine, which wraps, and
the order's is incremented by the store, which saturates, so past the
largest word the two part (`sequential_ledger_overflow`). A run whose amounts
sum to a word never gets there, and `sequential_ledger` is the law for those.
-/

open Firestore SetArray

/-! ## Calls that follow one another -/

/-- **A call that runs to its end before the next begins**: the dialog is
opened on a line of the order as stored, and both writes land. -/
def dispatchStep (doc : Fields) (a : OrderModel × Int64) : Option Fields := do
  let m ← OrderCartModel.fromMap doc
  if a.fst ∈ m.items then
    some (updateDispatchAmount (QuantityUpdate.call ⟨a.fst, m⟩ a.snd) doc)
  else none

/-- The same call, on the order its document stands for. -/
def OrderCartModel.dispatchStep (m : OrderCartModel) (a : OrderModel × Int64) :
    Option OrderCartModel :=
  if a.fst ∈ m.items then
    some (m.dispatch (QuantityUpdate.call ⟨a.fst, m⟩ a.snd))
  else none

/-- **A call on a document that stands for an order is a call on the
order.** -/
theorem dispatchStep_toMap (m : OrderCartModel) (a : OrderModel × Int64) :
    dispatchStep m.toMap a = (m.dispatchStep a).map OrderCartModel.toMap := by
  unfold dispatchStep OrderCartModel.dispatchStep
  rw [OrderCartModel.fromMap_toMap]
  show (if a.fst ∈ m.items then some (updateDispatchAmount _ _) else none) = _
  by_cases h : a.fst ∈ m.items
  · rw [if_pos h, if_pos h, OrderCartModel.updateDispatchAmount_toMap]
    rfl
  · rw [if_neg h, if_neg h]
    rfl

/-! ## The ledger -/

/-- **The order `m` is the ledger of what the order `m₀` asked for**: an
entry for each of its lines and no other, the totals the sums over the
entries, the status read off them. -/
structure IsLedgerOf (m₀ m : OrderCartModel) : Prop where
  uid : m.uid = m₀.uid
  id : m.id = m₀.id
  orderedAt : m.orderedAt = m₀.orderedAt
  totalQuantity : m.totalQuantity = m₀.totalQuantity
  /-- Each line ordered has exactly one entry, which differs from it in the
  dispatched count alone. -/
  entry : ∀ l ∈ m₀.items, ∃ d,
    entries OrderModel.orderId m.items l.orderId = [l.withDispatched d]
  /-- Nothing else is in the document. -/
  only : ∀ e ∈ m.items, ∃ l ∈ m₀.items, e.orderId = l.orderId
  quantities : amountSum OrderModel.quantity m.items = m.totalQuantity.toInt
  dispatches : amountSum OrderModel.dispatched m.items = m.deliveredQuantity.toInt
  nonneg : ∀ e ∈ m.items, 0 ≤ e.dispatched.toInt
  status : m.status
    = if m.deliveredQuantity = m.totalQuantity then .delivered else .pending

namespace IsLedgerOf

variable {m₀ m : OrderCartModel}

/-- An entry is the only one of its line. -/
theorem entries_self (h : IsLedgerOf m₀ m) {e : OrderModel}
    (he : e ∈ m.items) : entries OrderModel.orderId m.items e.orderId = [e] := by
  obtain ⟨l, hl, hel⟩ := h.only e he
  obtain ⟨d, hd⟩ := h.entry l hl
  have hmem : e ∈ entries OrderModel.orderId m.items l.orderId :=
    (mem_entries _).mpr ⟨he, hel⟩
  rw [hd, List.mem_singleton] at hmem
  rw [hel, hd, hmem]

/-- What has been dispatched of a line is part of what has been delivered. -/
theorem dispatched_le (h : IsLedgerOf m₀ m) {e : OrderModel}
    (he : e ∈ m.items) : e.dispatched.toInt ≤ m.deliveredQuantity.toInt := by
  rw [← h.dispatches]
  exact le_amountSum h.nonneg he

end IsLedgerOf

/-! ## One call -/

namespace OrderCartModel

variable {m : OrderCartModel} {e : OrderModel} {a : Int64}

/-- **The entries after a call**: the line's entry has the amount added, the
others are as they were. -/
theorem entries_dispatch
    (he : entries OrderModel.orderId m.items e.orderId = [e]) (k : String) :
    entries OrderModel.orderId (m.dispatch (QuantityUpdate.call ⟨e, m⟩ a)).items k
      = if e.orderId = k then [e.withDispatched (e.dispatched + a)]
        else entries OrderModel.orderId m.items k :=
  entries_replace OrderModel.orderId (v := e)
    (w := e.withDispatched (e.dispatched + a)) rfl he k

/-- **A sum over the entries after a call** moves by what the line's own
term moves by. -/
theorem amountSum_dispatch (f : OrderModel → Int64)
    (he : entries OrderModel.orderId m.items e.orderId = [e]) :
    amountSum f (m.dispatch (QuantityUpdate.call ⟨e, m⟩ a)).items + (f e).toInt
      = amountSum f m.items + (f (e.withDispatched (e.dispatched + a))).toInt := by
  have hnew : e.withDispatched (e.dispatched + a) ∉ remove m.items [e] :=
    notMem_of_entries_eq_nil OrderModel.orderId
      (entries_remove_self OrderModel.orderId he)
  have hitems : (m.dispatch (QuantityUpdate.call ⟨e, m⟩ a)).items
      = remove m.items [e] ++ [e.withDispatched (e.dispatched + a)] :=
    union_of_notMem hnew
  rw [hitems, amountSum_append, amountSum_cons, amountSum_nil,
    amountSum_perm f (perm_cons_remove OrderModel.orderId he), amountSum_cons]
  omega

/-- Every entry after a call is the line's new one or was there before. -/
theorem mem_dispatch {c : DispatchCall} {x : OrderModel}
    (hx : x ∈ (m.dispatch c).items) : x ∈ m.items ∨ x = c.dispatchedOrder := by
  rcases mem_union_singleton.mp hx with hx | rfl
  · exact Or.inl (mem_remove.mp hx).1
  · exact Or.inr rfl

end OrderCartModel

/-- **One call keeps the ledger**, as long as the delivered quantity stays
within a word. -/
theorem IsLedgerOf.dispatch {m₀ m : OrderCartModel} (h : IsLedgerOf m₀ m)
    {e : OrderModel} (he : e ∈ m.items) {a : Int64} (ha : 0 ≤ a.toInt)
    (hfit : m.deliveredQuantity.toInt + a.toInt < 2 ^ 63) :
    IsLedgerOf m₀ (m.dispatch (QuantityUpdate.call ⟨e, m⟩ a)) := by
  have hself := h.entries_self he
  have hle := h.dispatched_le he
  have hnn := h.nonneg e he
  have hline : (e.dispatched + a).toInt = e.dispatched.toInt + a.toInt :=
    Int64.toInt_add_of_fits ⟨by omega, by omega⟩
  have horder : (m.deliveredQuantity + a).toInt
      = m.deliveredQuantity.toInt + a.toInt :=
    Int64.toInt_add_of_fits ⟨by omega, by omega⟩
  have hinc : safeIncrement m.deliveredQuantity a = m.deliveredQuantity + a :=
    Int64.toInt_inj.mp (by
      rw [horder, toInt_safeIncrement_of_fits ha ⟨by omega, by omega⟩])
  constructor
  · exact h.uid
  · exact h.id
  · exact h.orderedAt
  · exact h.totalQuantity
  · -- the entry of the line called is replaced, the others are untouched
    intro l hl
    rw [OrderCartModel.entries_dispatch hself]
    obtain ⟨d, hd⟩ := h.entry l hl
    by_cases hk : e.orderId = l.orderId
    · rw [hk, hd, List.cons.injEq] at hself
      rw [if_pos hk, ← hself.1]
      exact ⟨_, rfl⟩
    · rw [if_neg hk]
      exact ⟨d, hd⟩
  · intro x hx
    rcases OrderCartModel.mem_dispatch hx with hx | rfl
    · exact h.only x hx
    · exact h.only e he
  · have hsum := OrderCartModel.amountSum_dispatch (a := a) OrderModel.quantity hself
    show amountSum OrderModel.quantity _ = m.totalQuantity.toInt
    rw [← h.quantities]
    rw [OrderModel.withDispatched_quantity] at hsum
    omega
  · have hsum := OrderCartModel.amountSum_dispatch (a := a) OrderModel.dispatched hself
    show amountSum OrderModel.dispatched _ = (safeIncrement m.deliveredQuantity a).toInt
    rw [hinc, horder, ← h.dispatches]
    rw [OrderModel.withDispatched_dispatched, hline] at hsum
    omega
  · intro x hx
    rcases OrderCartModel.mem_dispatch hx with hx | rfl
    · exact h.nonneg x hx
    · show 0 ≤ (e.dispatched + a).toInt
      omega
  · -- the status compares the same two totals the document now holds
    show (if m.totalQuantity = m.deliveredQuantity + a then OrderStatus.delivered
        else .pending)
      = if safeIncrement m.deliveredQuantity a = m.totalQuantity then .delivered
        else .pending
    rw [hinc]
    exact if_congr eq_comm rfl rfl

/-! ## Whole runs -/

/-- **The order checkout places is its own ledger**, as long as its total
fits a word. -/
theorem Cart.isLedgerOf_order (c : Cart) (uid : String) (dt : DateTime)
    (hfit : c.pieces < 2 ^ 63) : IsLedgerOf (c.order uid dt) (c.order uid dt) := by
  have htotal : (calculateQuantity c.products).toInt = c.pieces :=
    toInt_calculateQuantity c.quantity_nonneg hfit
  have hpos := c.pieces_pos
  have hne : ¬ (0 : Int64) = calculateQuantity c.products := by
    intro hc
    rw [← hc, Int64.toInt_zero] at htotal
    omega
  constructor
  · rfl
  · rfl
  · rfl
  · rfl
  · intro l hl
    exact ⟨l.dispatched, entries_of_nodup OrderModel.orderId c.distinct hl⟩
  · intro e he
    exact ⟨e, he, rfl⟩
  · exact htotal.symm
  · show amountSum OrderModel.dispatched c.products = (0 : Int64).toInt
    rw [c.amountSum_dispatched, Int64.toInt_zero]
  · intro e he
    rw [(c.isCartLine e he).dispatched, Int64.toInt_zero]
  · show OrderStatus.pending = if (0 : Int64) = calculateQuantity c.products then _ else _
    rw [if_neg hne]

/-- **Calls one after the other keep the ledger**, as long as what they
deliver in total stays within a word. -/
theorem IsLedgerOf.run {m₀ m m' : OrderCartModel} (h : IsLedgerOf m₀ m)
    {calls : List (OrderModel × Int64)} (ha : ∀ a ∈ calls, 0 ≤ a.snd.toInt)
    (hfit : m.deliveredQuantity.toInt + amountSum Prod.snd calls < 2 ^ 63)
    (hrun : Runs.run OrderCartModel.dispatchStep m calls = some m') :
    IsLedgerOf m₀ m' := by
  induction calls generalizing m with
  | nil =>
    obtain rfl := Option.some.inj hrun
    exact h
  | cons c cs ih =>
    obtain ⟨m₁, hstep, hrun'⟩ := (Runs.run_cons_eq_some _).mp hrun
    have hc := ha c (List.mem_cons_self ..)
    have hcs : ∀ a ∈ cs, 0 ≤ a.snd.toInt :=
      fun a has => ha a (List.mem_cons_of_mem c has)
    have hrest := amountSum_nonneg hcs
    rw [amountSum_cons] at hfit
    unfold OrderCartModel.dispatchStep at hstep
    by_cases hmem : c.fst ∈ m.items
    · rw [if_pos hmem] at hstep
      obtain rfl := Option.some.inj hstep
      have hnext := h.dispatch hmem hc (by omega)
      refine ih hnext hcs ?_ hrun'
      show (safeIncrement m.deliveredQuantity c.snd).toInt + _ < 2 ^ 63
      rw [toInt_safeIncrement hc]
      omega
    · rw [if_neg hmem] at hstep
      exact absurd hstep (by simp)

/-- **The ledger of an order under sequential dispatch.** Of an order
checkout placed, whose total fits a word, any calls made one after the other
– each on a line of the order as stored, with a non-negative amount, the
amounts together within a word – leave a document that is the order's
ledger. -/
theorem sequential_ledger (c : Cart) (uid : String) (dt : DateTime)
    (hpieces : c.pieces < 2 ^ 63) (calls : List (OrderModel × Int64))
    (hnonneg : ∀ a ∈ calls, 0 ≤ a.snd.toInt)
    (hamounts : amountSum Prod.snd calls < 2 ^ 63) (doc : Fields)
    (hrun : Runs.run dispatchStep (c.order uid dt).toMap calls = some doc) :
    ∃ m, doc = m.toMap ∧ IsLedgerOf (c.order uid dt) m := by
  rw [Runs.run_map dispatchStep_toMap] at hrun
  obtain ⟨m, hm, rfl⟩ := Option.map_eq_some_iff.mp hrun
  refine ⟨m, rfl, (c.isLedgerOf_order uid dt hpieces).run hnonneg ?_ hm⟩
  show (0 : Int64).toInt + amountSum Prod.snd calls < 2 ^ 63
  rw [Int64.toInt_zero]
  omega

/-- The law at work: of two lines, one is dispatched in two parts, with the whole
of the other in between. -/
theorem sequential_ledger_pair :
    ∃ doc, Runs.run dispatchStep (cartToOrder "u" ⟨0⟩ [cartLine "1" 2, cartLine "2" 3]).toMap
        [(cartLine "1" 2, 1), (cartLine "2" 3, 3), ((cartLine "1" 2).withDispatched 1, 1)]
          = some doc
      ∧ ∃ m, doc = m.toMap
        ∧ IsLedgerOf (cartToOrder "u" ⟨0⟩ [cartLine "1" 2, cartLine "2" 3]) m :=
  ⟨{ cartToOrder "u" ⟨0⟩ [cartLine "1" 2, cartLine "2" 3] with
      status := .delivered
      items := [(cartLine "2" 3).withDispatched 3, (cartLine "1" 2).withDispatched 2]
      deliveredQuantity := 5 : OrderCartModel }.toMap, by decide,
    sequential_ledger
      (Cart.pair (cartLine "1" 2) (cartLine "2" 3) (by decide) (by decide) (by decide)) "u" ⟨0⟩
      (by decide)
      [(cartLine "1" 2, 1), (cartLine "2" 3, 3), ((cartLine "1" 2).withDispatched 1, 1)] (by decide)
      (by decide) _ (by decide)⟩

/-- **Neither bound can be dropped.** Of a line of one piece the largest word
is dispatched and then one more: the line's count wraps to a negative number,
and the order's stays where it is. And of two lines of the largest word of
pieces each the total wraps before anything is dispatched. -/
theorem sequential_ledger_overflow :
    (¬ ∀ (c : Cart) (uid : String) (dt : DateTime) (calls : List (OrderModel × Int64))
      (doc : Fields), c.pieces < 2 ^ 63 → (∀ a ∈ calls, 0 ≤ a.snd.toInt) →
      Runs.run dispatchStep (c.order uid dt).toMap calls = some doc →
      ∃ m, doc = m.toMap ∧ IsLedgerOf (c.order uid dt) m)
    ∧ ¬ ∀ (c : Cart) (uid : String) (dt : DateTime) (calls : List (OrderModel × Int64))
      (doc : Fields), amountSum Prod.snd calls < 2 ^ 63 → (∀ a ∈ calls, 0 ≤ a.snd.toInt) →
      Runs.run dispatchStep (c.order uid dt).toMap calls = some doc →
      ∃ m, doc = m.toMap ∧ IsLedgerOf (c.order uid dt) m := by
  constructor
  · intro h
    let c := Cart.single (cartLine "1" 1) (by decide)
    let calls : List (OrderModel × Int64) :=
      [(cartLine "1" 1, Int64.maxValue),
        ((cartLine "1" 1).withDispatched Int64.maxValue, 1)]
    let m' : OrderCartModel :=
      { c.order "u" ⟨0⟩ with
        items := [(cartLine "1" 1).withDispatched Int64.minValue]
        deliveredQuantity := Int64.maxValue }
    obtain ⟨m, hdoc, hm⟩ := h c "u" ⟨0⟩ calls m'.toMap (by decide) (by decide) (by decide)
    obtain rfl := OrderCartModel.toMap_injective hdoc
    exact absurd hm.dispatches (by decide)
  · intro h
    let c := Cart.pair (cartLine "1" Int64.maxValue) (cartLine "2" Int64.maxValue)
      (by decide) (by decide) (by decide)
    obtain ⟨m, hdoc, hm⟩ := h c "u" ⟨0⟩ [] (c.order "u" ⟨0⟩).toMap (by decide) (by decide) rfl
    obtain rfl := OrderCartModel.toMap_injective hdoc
    exact absurd hm.quantities (by decide)
