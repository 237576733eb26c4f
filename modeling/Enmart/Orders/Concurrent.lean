import Enmart.Orders.Ledger

/-!
# Dispatching from several clients

Each call of `updateDispatchAmount` is a dialog opened on a line of an order
that was read at some moment, then two writes, with whatever the other
clients do in between. `dispatchesStep` is that system: the stored order and
the calls made so far, each opened, between its writes, or done.

What it keeps is read off the document *and* off the hands of the calls
between their writes. A line that a first write took out of the document is
held by that call until its second write, so stored and held lines together
are the lines ordered, each with the amounts of the calls done on it
(`InOneHand`). That is kept as long as a first write finds its copy of the
line in the document. A copy that is no longer there – some other call has
been done on the line since it was read, or is between its writes – is
removed in silence and put back as a second entry.
-/

open Firestore SetArray

/-! ## The system -/

/-- How far a call has got. -/
inductive CallPhase where
  /-- The dialog is open. -/
  | opened (d : QuantityUpdate)
  /-- The first write has landed. -/
  | between (c : DispatchCall)
  /-- Both writes have landed. -/
  | done (c : DispatchCall)
  deriving DecidableEq, Repr

namespace CallPhase

/-- The line a call is about. -/
def lineId : CallPhase → String
  | opened d => d.e.orderId
  | between c => c.order.orderId
  | done c => c.order.orderId

/-- The copy of the line the dialog holds, if it is open. -/
def copy? : CallPhase → Option OrderModel
  | opened d => some d.e
  | _ => none

/-- The call, if it is between its writes. -/
def between? : CallPhase → Option DispatchCall
  | between c => some c
  | _ => none

/-- The line a call holds, if it is between its writes. -/
def held? (p : CallPhase) : Option OrderModel := p.between?.map DispatchCall.order

/-- The call, if both its writes have landed. -/
def done? : CallPhase → Option DispatchCall
  | done c => some c
  | _ => none

end CallPhase

/-- The lines the calls between their writes hold. -/
def heldLines (calls : List CallPhase) : List OrderModel :=
  calls.filterMap CallPhase.held?

/-- The calls that are done. -/
def doneCalls (calls : List CallPhase) : List DispatchCall :=
  calls.filterMap CallPhase.done?

/-- **What has been dispatched of a line**: the amounts of the calls done on
it, together. -/
def credit (calls : List CallPhase) (k : String) : ℤ :=
  amountSum DispatchCall.dispatched
    (entries (fun c => c.order.orderId) (doneCalls calls) k)

/-- **An order several clients dispatch from**: the order as it is stored,
and the calls made so far. -/
structure Dispatches (δ : Type) where
  stored : δ
  calls : List CallPhase
  deriving DecidableEq, Repr

/-- What happens next. -/
inductive DispatchAction where
  /-- A client reads the order and opens the dialog on one of its lines. -/
  | openOn (e : OrderModel)
  /-- The first write of a call lands, for the amount typed. -/
  | remove (i : ℕ) (amount : Int64)
  /-- The second write of a call lands. -/
  | add (i : ℕ)
  deriving DecidableEq, Repr

/-- How an order is stored: how it is read, and what the two writes of a call
do to it. -/
structure OrderStore (δ : Type) where
  read : δ → Option OrderCartModel
  remove : DispatchCall → δ → δ
  add : DispatchCall → δ → δ

/-- An order stored as its document. -/
def documents : OrderStore Fields where
  read := OrderCartModel.fromMap
  remove c doc := doc.patch c.removeWrite
  add c doc := doc.patch c.addWrite

/-- An order stored as it is. -/
def orders : OrderStore OrderCartModel where
  read := some
  remove c m := m.removeLine c.order
  add c m := m.addLine c

/-- **One step of the clients together.** The amount typed is not
negative. -/
def dispatchesStep {δ : Type} (st : OrderStore δ) (s : Dispatches δ) :
    DispatchAction → Option (Dispatches δ)
  | .openOn e => do
    let m ← st.read s.stored
    if e ∈ m.items then some ⟨s.stored, s.calls ++ [.opened ⟨e, m⟩]⟩ else none
  | .remove i amount =>
    match s.calls[i]? with
    | some (.opened d) =>
      if 0 ≤ amount.toInt then
        -- whether or not the copy is still there to remove
        some ⟨st.remove (d.call amount) s.stored,
          s.calls.set i (.between (d.call amount))⟩
      else none
    | _ => none
  | .add i =>
    match s.calls[i]? with
    | some (.between c) => some ⟨st.add c s.stored, s.calls.set i (.done c)⟩
    | _ => none

/-- The same calls on the document of the stored order. -/
def Dispatches.toMap (s : Dispatches OrderCartModel) : Dispatches Fields :=
  ⟨s.stored.toMap, s.calls⟩

/-- **The system on documents is the system on orders.** -/
theorem dispatchesStep_toMap (s : Dispatches OrderCartModel) (a : DispatchAction) :
    dispatchesStep documents s.toMap a
      = (dispatchesStep orders s a).map Dispatches.toMap := by
  cases a with
  | openOn e =>
    show (OrderCartModel.fromMap s.stored.toMap).bind _ = _
    rw [OrderCartModel.fromMap_toMap]
    show (if e ∈ s.stored.items then _ else none)
      = Option.map _ (if e ∈ s.stored.items then _ else none)
    by_cases h : e ∈ s.stored.items
    · rw [if_pos h, if_pos h]
      rfl
    · rw [if_neg h, if_neg h]
      rfl
  | remove i amount =>
    rcases hp : s.calls[i]? with _ | (d | c | c)
    · simp [dispatchesStep, Dispatches.toMap, hp]
    · by_cases h : 0 ≤ amount.toInt
      · have hwrite := OrderCartModel.patch_removeWrite s.stored (d.call amount)
        simp only [dispatchesStep, Dispatches.toMap, hp, if_pos h, documents, orders,
          hwrite, Option.map_some]
      · simp [dispatchesStep, Dispatches.toMap, hp, h]
    · simp [dispatchesStep, Dispatches.toMap, hp]
    · simp [dispatchesStep, Dispatches.toMap, hp]
  | add i =>
    rcases hp : s.calls[i]? with _ | (d | c | c)
    · simp [dispatchesStep, Dispatches.toMap, hp]
    · simp [dispatchesStep, Dispatches.toMap, hp]
    · have hwrite := OrderCartModel.patch_addWrite s.stored c
      simp only [dispatchesStep, Dispatches.toMap, hp, documents, orders, hwrite,
        Option.map_some]
    · simp [dispatchesStep, Dispatches.toMap, hp]

/-- **What a step of the clients is**, on the order. -/
inductive DispatchesMove (s : Dispatches OrderCartModel) :
    DispatchAction → Dispatches OrderCartModel → Prop
  | openOn {e : OrderModel} (he : e ∈ s.stored.items) :
      DispatchesMove s (.openOn e) ⟨s.stored, s.calls ++ [.opened ⟨e, s.stored⟩]⟩
  | remove {i : ℕ} {n : Int64} {d : QuantityUpdate}
      (hi : s.calls[i]? = some (.opened d)) (hn : 0 ≤ n.toInt) :
      DispatchesMove s (.remove i n)
        ⟨s.stored.removeLine d.e, s.calls.set i (.between (d.call n))⟩
  | add {i : ℕ} {c : DispatchCall} (hi : s.calls[i]? = some (.between c)) :
      DispatchesMove s (.add i) ⟨s.stored.addLine c, s.calls.set i (.done c)⟩

theorem dispatchesMove_of_step {s s' : Dispatches OrderCartModel}
    {a : DispatchAction} (h : dispatchesStep orders s a = some s') :
    DispatchesMove s a s' := by
  cases a with
  | openOn e =>
    have hguard : (if e ∈ s.stored.items then
        some (⟨s.stored, s.calls ++ [.opened ⟨e, s.stored⟩]⟩ :
          Dispatches OrderCartModel) else none) = some s' := h
    by_cases he : e ∈ s.stored.items
    · rw [if_pos he] at hguard
      obtain rfl := Option.some.inj hguard
      exact .openOn he
    · rw [if_neg he] at hguard
      exact absurd hguard (by simp)
  | remove i n =>
    rcases hi : s.calls[i]? with _ | (d | c | c)
    · simp [dispatchesStep, hi] at h
    · by_cases hn : 0 ≤ n.toInt
      · simp only [dispatchesStep, hi, if_pos hn, Option.some.injEq] at h
        rw [← h]
        exact .remove hi hn
      · simp [dispatchesStep, hi, hn] at h
    · simp [dispatchesStep, hi] at h
    · simp [dispatchesStep, hi] at h
  | add i =>
    rcases hi : s.calls[i]? with _ | (d | c | c)
    · simp [dispatchesStep, hi] at h
    · simp [dispatchesStep, hi] at h
    · simp only [dispatchesStep, hi, Option.some.injEq] at h
      rw [← h]
      exact .add hi
    · simp [dispatchesStep, hi] at h

/-! ## What one call's progress changes -/

section Progress

variable {calls : List CallPhase} {i : ℕ} {p : CallPhase}

/-- **The other calls**: a call that gets further leaves them as they are. -/
theorem exists_rest (hi : calls[i]? = some p) :
    ∃ rest, calls.Perm (p :: rest) ∧ ∀ q, (calls.set i q).Perm (q :: rest) :=
  ⟨calls.eraseIdx i, perm_cons_eraseIdx hi, fun q => set_perm_cons_eraseIdx hi q⟩

/-- An open dialog holds no line. -/
theorem heldLines_append_opened (calls : List CallPhase) (d : QuantityUpdate) :
    heldLines (calls ++ [.opened d]) = heldLines calls := by
  unfold heldLines
  rw [List.filterMap_append]
  exact List.append_nil _

/-- A call between its writes holds its line. -/
theorem mem_heldLines_set (hi : calls[i]? = some p) (c : DispatchCall) :
    c.order ∈ heldLines (calls.set i (.between c)) := by
  obtain ⟨rest, -, hset⟩ := exists_rest hi
  have hheld : (heldLines (calls.set i (.between c))).Perm (c.order :: heldLines rest) :=
    (hset _).filterMap _
  exact hheld.mem_iff.mpr (List.mem_cons_self ..)

/-- What a line has been credited depends on the calls, not on their
order. -/
theorem credit_perm {calls calls' : List CallPhase} (h : calls.Perm calls')
    (k : String) : credit calls k = credit calls' k :=
  amountSum_perm _ ((h.filterMap _).filter _)

/-- A call done is credited to its line. -/
theorem credit_done_cons (c : DispatchCall) (rest : List CallPhase) (k : String) :
    credit (.done c :: rest) k
      = (if c.order.orderId = k then c.dispatched.toInt else 0) + credit rest k := by
  have hcons : doneCalls (.done c :: rest) = [c] ++ doneCalls rest := rfl
  rw [credit, hcons, entries_append, amountSum_append, entries_singleton]
  refine congrArg (· + credit rest k) ?_
  by_cases hk : c.order.orderId = k
  · rw [if_pos hk, if_pos hk, amountSum_cons, amountSum_nil, Int.add_zero]
  · rw [if_neg hk, if_neg hk, amountSum_nil]

/-- **A second write is credited to its line**, and to no other. -/
theorem credit_set_done {c : DispatchCall} (hi : calls[i]? = some (.between c)) (k : String) :
    credit (calls.set i (.done c)) k
      = (if c.order.orderId = k then c.dispatched.toInt else 0) + credit calls k := by
  obtain ⟨rest, hcalls, hset⟩ := exists_rest hi
  rw [credit_perm (hset (.done c)), credit_done_cons, credit_perm hcalls]
  rfl

end Progress

/-! ## Stored and held lines -/

/-- An order whose counts agree: distinct lines, and totals that are the
sums over them. -/
structure IsBalanced (m : OrderCartModel) : Prop where
  distinct : (m.items.map OrderModel.orderId).Nodup
  quantities : amountSum OrderModel.quantity m.items = m.totalQuantity.toInt
  dispatches : amountSum OrderModel.dispatched m.items = m.deliveredQuantity.toInt

/-- The counts of a ledger agree, so those of an order checkout has placed
do, and those of what calls one after the other make of it. -/
theorem IsLedgerOf.isBalanced {m₀ m : OrderCartModel} (h : IsLedgerOf m₀ m) :
    IsBalanced m where
  distinct := nodup_of_entries OrderModel.orderId (fun _ he => h.entries_self he)
  quantities := h.quantities
  dispatches := h.dispatches

/-- A line with what has been credited to it. -/
def booked (calls : List CallPhase) (l : OrderModel) : OrderModel :=
  l.withDispatched (Int64.ofInt (l.dispatched.toInt + credit calls l.orderId))

/-- **Every line is in one hand**: in the document, or with one call between
its writes, and its count is what has been credited to it. -/
structure InOneHand (m₀ : OrderCartModel) (s : Dispatches OrderCartModel) : Prop where
  total : s.stored.totalQuantity = m₀.totalQuantity
  /-- Stored and held together are the lines, as booked. -/
  lines : (s.stored.items ++ heldLines s.calls).Perm (m₀.items.map (booked s.calls))
  /-- No count has wrapped. -/
  counted : ∀ l ∈ m₀.items, (booked s.calls l).dispatched.toInt
    = l.dispatched.toInt + credit s.calls l.orderId
  /-- The order's count is the sum of the lines'. -/
  dispatches : amountSum OrderModel.dispatched (s.stored.items ++ heldLines s.calls)
    = s.stored.deliveredQuantity.toInt
  /-- No call in progress has a negative amount. -/
  amounts : ∀ c, CallPhase.between c ∈ s.calls → 0 ≤ c.dispatched.toInt

/-- The line with an amount added to its count, where it is the line of the
key `k`. -/
def bump (k : String) (n : Int64) (o : OrderModel) : OrderModel :=
  if o.orderId = k then o.withDispatched (o.dispatched + n) else o

@[simp] theorem booked_orderId (calls : List CallPhase) (l : OrderModel) :
    (booked calls l).orderId = l.orderId := rfl

/-- What is booked is what the calls are credited with. -/
theorem booked_congr {calls calls' : List CallPhase} (h : credit calls = credit calls') :
    booked calls = booked calls' := by
  funext l
  unfold booked
  rw [h]

/-- Nothing has been credited before the first call. -/
theorem booked_nil (l : OrderModel) : booked [] l = l := by
  unfold booked
  rw [show credit [] l.orderId = 0 from rfl, Int.add_zero, Int64.ofInt_toInt]
  rfl

/-- Booking one more call is adding its amount to its line. -/
theorem booked_set_done {calls : List CallPhase} {i : ℕ} {c : DispatchCall}
    (hi : calls[i]? = some (.between c)) (l : OrderModel) :
    booked (calls.set i (.done c)) l = bump c.order.orderId c.dispatched (booked calls l) := by
  unfold booked bump
  rw [credit_set_done hi, OrderModel.withDispatched_orderId]
  by_cases hk : l.orderId = c.order.orderId
  · rw [if_pos hk, if_pos hk.symm, Int.add_left_comm, Int.add_comm, Int64.ofInt_add,
      Int64.ofInt_toInt]
    rfl
  · rw [if_neg hk, if_neg (fun h => hk h.symm), Int.zero_add]

/-- **An order with balanced counts is in the document's hand** before the
first call. -/
theorem IsBalanced.inOneHand {m₀ : OrderCartModel} (h : IsBalanced m₀) :
    InOneHand m₀ ⟨m₀, []⟩ := by
  have hbooked : m₀.items.map (booked []) = m₀.items := by
    rw [List.map_congr_left (fun l _ => booked_nil l), List.map_id']
  constructor
  · rfl
  · show (m₀.items ++ []).Perm _
    rw [hbooked, List.append_nil]
  · intro l _
    show (booked [] l).dispatched.toInt = l.dispatched.toInt + 0
    rw [booked_nil, Int.add_zero]
  · show amountSum OrderModel.dispatched (m₀.items ++ []) = _
    rw [List.append_nil]
    exact h.dispatches
  · intro c hc
    exact absurd hc List.not_mem_nil

namespace InOneHand

variable {m₀ : OrderCartModel} {s : Dispatches OrderCartModel}

/-- No two lines, stored or held, have one identifier. -/
theorem nodup (h : InOneHand m₀ s) (h₀ : IsBalanced m₀) :
    ((s.stored.items ++ heldLines s.calls).map OrderModel.orderId).Nodup := by
  have hmap : (m₀.items.map (booked s.calls)).map OrderModel.orderId
      = m₀.items.map OrderModel.orderId := by
    rw [List.map_map]
    rfl
  rw [((h.lines.map OrderModel.orderId).nodup_iff), hmap]
  exact h₀.distinct

/-- The pieces ordered are those of the lines, stored or held. -/
theorem quantities (h : InOneHand m₀ s) (h₀ : IsBalanced m₀) :
    amountSum OrderModel.quantity (s.stored.items ++ heldLines s.calls)
      = s.stored.totalQuantity.toInt := by
  rw [amountSum_perm _ h.lines, amountSum_map, h.total, ← h₀.quantities]
  rfl

/-- Opening a dialog changes neither what is stored nor what is held. -/
theorem openOn (h : InOneHand m₀ s) (d : QuantityUpdate) :
    InOneHand m₀ ⟨s.stored, s.calls ++ [.opened d]⟩ := by
  have hheld := heldLines_append_opened s.calls d
  have hdone : doneCalls (s.calls ++ [.opened d]) = doneCalls s.calls := by
    unfold doneCalls
    rw [List.filterMap_append]
    exact List.append_nil _
  have hcredit : credit (s.calls ++ [.opened d]) = credit s.calls := by
    funext k
    unfold credit
    rw [hdone]
  have hbooked := booked_congr hcredit
  constructor
  · exact h.total
  · show (s.stored.items ++ heldLines _).Perm _
    rw [hheld, hbooked]
    exact h.lines
  · intro l hl
    show (booked (s.calls ++ _) l).dispatched.toInt = _ + credit (s.calls ++ _) _
    rw [hbooked, hcredit]
    exact h.counted l hl
  · show amountSum _ (s.stored.items ++ heldLines _) = _
    rw [hheld]
    exact h.dispatches
  · intro c hc
    rcases List.mem_append.mp hc with hc | hc
    · exact h.amounts c hc
    · exact absurd (List.mem_singleton.mp hc) (by simp)

/-- What a first write takes out of the document, its call holds. -/
theorem perm_remove (h : InOneHand m₀ s) (h₀ : IsBalanced m₀) {i : ℕ} {n : Int64}
    {d : QuantityUpdate} (hi : s.calls[i]? = some (.opened d))
    (hmem : d.e ∈ s.stored.items) :
    ((s.stored.removeLine d.e).items
        ++ heldLines (s.calls.set i (.between (d.call n)))).Perm
      (s.stored.items ++ heldLines s.calls) := by
  obtain ⟨rest, hcalls, hset⟩ := exists_rest hi
  have hheld : (heldLines s.calls).Perm (heldLines rest) := hcalls.filterMap _
  have hheld' : (heldLines (s.calls.set i (.between (d.call n)))).Perm
      (d.e :: heldLines rest) := (hset _).filterMap _
  have hkeys : (s.stored.items.map OrderModel.orderId).Nodup := by
    have hnodup := h.nodup h₀
    rw [List.map_append] at hnodup
    exact (List.nodup_append.mp hnodup).1
  have hitems := perm_cons_remove OrderModel.orderId
    (entries_of_nodup OrderModel.orderId hkeys hmem)
  refine (hheld'.append_left _).trans ?_
  refine List.perm_middle.trans ?_
  exact hitems.symm.append hheld.symm

/-- **A first write that finds its copy moves the line from the document to
the call.** -/
theorem remove (h : InOneHand m₀ s) (h₀ : IsBalanced m₀) {i : ℕ} {n : Int64}
    {d : QuantityUpdate} (hi : s.calls[i]? = some (.opened d)) (hn : 0 ≤ n.toInt)
    (hmem : d.e ∈ s.stored.items) :
    InOneHand m₀ ⟨s.stored.removeLine d.e, s.calls.set i (.between (d.call n))⟩ := by
  have hmove := h.perm_remove h₀ (n := n) hi hmem
  obtain ⟨rest, hcalls, hset⟩ := exists_rest hi
  have hset' := hset (.between (d.call n))
  have hcredit : credit (s.calls.set i (.between (d.call n))) = credit s.calls := by
    funext k
    rw [credit_perm hset', credit_perm hcalls]
    rfl
  have hbooked := booked_congr hcredit
  constructor
  · exact h.total
  · rw [hbooked]
    exact hmove.trans h.lines
  · intro l hl
    rw [hbooked, hcredit]
    exact h.counted l hl
  · show amountSum _ _ = s.stored.deliveredQuantity.toInt
    rw [← h.dispatches]
    exact amountSum_perm _ hmove
  · intro c hc
    rcases List.mem_cons.mp (hset'.mem_iff.mp hc) with hc | hc
    · obtain rfl := CallPhase.between.inj hc
      exact hn
    · exact h.amounts c (hcalls.mem_iff.mpr (List.mem_cons_of_mem _ hc))

/-- **What a call holds, its second write puts back**, dispatched: apart from
it, stored and held lines are the same before and after. -/
theorem perm_add (h : InOneHand m₀ s) (h₀ : IsBalanced m₀) {i : ℕ} {c : DispatchCall}
    (hi : s.calls[i]? = some (.between c)) :
    ∃ others, (s.stored.items ++ heldLines s.calls).Perm (c.order :: others)
      ∧ ((s.stored.addLine c).items ++ heldLines (s.calls.set i (.done c))).Perm
          (c.dispatchedOrder :: others)
      ∧ ∀ x ∈ others, x.orderId ≠ c.order.orderId := by
  obtain ⟨rest, hcalls, hset⟩ := exists_rest hi
  have hheld : (heldLines s.calls).Perm (c.order :: heldLines rest) :=
    hcalls.filterMap _
  have hheld' : (heldLines (s.calls.set i (.done c))).Perm (heldLines rest) :=
    (hset _).filterMap _
  have hbefore : (s.stored.items ++ heldLines s.calls).Perm
      (c.order :: (s.stored.items ++ heldLines rest)) :=
    (hheld.append_left _).trans List.perm_middle
  have hkeys := h.nodup h₀
  rw [(hbefore.map OrderModel.orderId).nodup_iff] at hkeys
  have hother : ∀ x ∈ s.stored.items ++ heldLines rest,
      x.orderId ≠ c.order.orderId := fun x hx hk =>
    (List.nodup_cons.mp hkeys).1 (List.mem_map.mpr ⟨x, hx, hk⟩)
  have hnew : c.dispatchedOrder ∉ s.stored.items := fun hc =>
    hother _ (List.mem_append_left _ hc) rfl
  refine ⟨s.stored.items ++ heldLines rest, hbefore, ?_, hother⟩
  rw [OrderCartModel.addLine_items, union_of_notMem hnew, List.append_assoc]
  exact (hheld'.append_left _ |>.append_left _).trans List.perm_middle

/-- **A second write moves the line from the call to the document**, with
its amount booked, as long as the line's count and the order's fit a
word. -/
theorem add (h : InOneHand m₀ s) (h₀ : IsBalanced m₀) {i : ℕ} {c : DispatchCall}
    (hi : s.calls[i]? = some (.between c))
    (hfit : s.stored.deliveredQuantity.toInt + c.dispatched.toInt < 2 ^ 63)
    (hfit' : c.order.dispatched.toInt + c.dispatched.toInt < 2 ^ 63) :
    InOneHand m₀ ⟨s.stored.addLine c, s.calls.set i (.done c)⟩ := by
  obtain ⟨others, hbefore, hafter, hother⟩ := h.perm_add h₀ hi
  obtain ⟨rest, hcalls, hset⟩ := exists_rest hi
  have hset' := hset (.done c)
  have hamount := h.amounts c (List.mem_of_getElem? hi)
  have hbooked : booked (s.calls.set i (.done c))
      = fun l => bump c.order.orderId c.dispatched (booked s.calls l) :=
    funext (booked_set_done hi)
  -- the count of the line and of the order move by the amount, and fit
  have hlow := c.order.dispatched.le_toInt
  have hlow' := s.stored.deliveredQuantity.le_toInt
  have hsum := h.dispatches
  rw [amountSum_perm _ hbefore] at hsum
  have hline : c.dispatchedOrder.dispatched.toInt
      = c.order.dispatched.toInt + c.dispatched.toInt :=
    Int64.toInt_add_of_fits ⟨by omega, by omega⟩
  have horder : (s.stored.addLine c).deliveredQuantity.toInt
      = s.stored.deliveredQuantity.toInt + c.dispatched.toInt :=
    toInt_safeIncrement_of_fits hamount ⟨by omega, by omega⟩
  have hbump : c.dispatchedOrder :: others
      = (c.order :: others).map (bump c.order.orderId c.dispatched) := by
    rw [List.map_cons]
    refine congrArg₂ List.cons (if_pos rfl).symm ?_
    refine (List.map_id' _).symm.trans (List.map_congr_left (fun x hx => ?_))
    exact (if_neg (hother x hx)).symm
  constructor
  · exact h.total
  · rw [hbooked, ← Function.comp_def, ← List.map_map]
    refine hafter.trans ?_
    rw [hbump]
    exact (hbefore.symm.trans h.lines).map _
  · intro l hl
    have hcount := h.counted l hl
    rw [hbooked, credit_set_done hi]
    show (bump _ _ (booked s.calls l)).dispatched.toInt = _
    unfold bump
    by_cases hk : l.orderId = c.order.orderId
    · -- the line booked is the one the call holds
      have hmem : booked s.calls l ∈ c.order :: others :=
        (hbefore.symm.trans h.lines).mem_iff.mpr (List.mem_map_of_mem hl)
      have hheldline : booked s.calls l = c.order := by
        rcases List.mem_cons.mp hmem with heq | hc
        · exact heq
        · exact absurd hk (hother (booked s.calls l) hc)
      rw [booked_orderId, if_pos hk, if_pos hk.symm, hheldline]
      show c.dispatchedOrder.dispatched.toInt = _
      rw [hline, ← hheldline, hcount]
      omega
    · rw [booked_orderId, if_neg hk, if_neg (fun hc => hk hc.symm), hcount]
      omega
  · rw [amountSum_perm _ hafter, amountSum_cons, hline, horder, ← hsum, amountSum_cons]
    omega
  · intro c' hc'
    rcases List.mem_cons.mp (hset'.mem_iff.mp hc') with hc' | hc'
    · exact absurd hc' (by simp)
    · exact h.amounts c' (hcalls.mem_iff.mpr (List.mem_cons_of_mem _ hc'))

end InOneHand

/-! ## Runs -/

/-- **A step finds what it needs**: a first write its copy of the line in the
document, and a second write room for its amount in the order's count and in
the line's. -/
def FindsCopy {δ : Type} (st : OrderStore δ) (s : Dispatches δ) :
    DispatchAction → Prop
  | .openOn _ => True
  | .remove i _ => ∀ p ∈ s.calls[i]?, ∀ o ∈ p.copy?, ∀ m ∈ st.read s.stored,
      o ∈ m.items
  | .add i => ∀ p ∈ s.calls[i]?, ∀ c ∈ p.between?, ∀ m ∈ st.read s.stored,
      m.deliveredQuantity.toInt + c.dispatched.toInt < 2 ^ 63
        ∧ c.order.dispatched.toInt + c.dispatched.toInt < 2 ^ 63

instance {δ : Type} (st : OrderStore δ) (s : Dispatches δ) :
    (a : DispatchAction) → Decidable (FindsCopy st s a)
  | .openOn _ => isTrue trivial
  | .remove i _ => inferInstanceAs (Decidable (∀ p ∈ s.calls[i]?, _))
  | .add i => inferInstanceAs (Decidable (∀ p ∈ s.calls[i]?, _))

/-- Finding the copy is a matter of the order a document stands for. -/
theorem findsCopy_toMap (s : Dispatches OrderCartModel) (a : DispatchAction) :
    FindsCopy documents s.toMap a ↔ FindsCopy orders s a := by
  have hread : documents.read s.toMap.stored = orders.read s.stored :=
    OrderCartModel.fromMap_toMap s.stored
  cases a with
  | openOn e => exact Iff.rfl
  | remove i n =>
    unfold FindsCopy
    rw [hread]
    exact Iff.rfl
  | add i =>
    unfold FindsCopy
    rw [hread]
    exact Iff.rfl

/-- **A step that finds what it needs keeps every line in one hand.** -/
theorem InOneHand.step {m₀ : OrderCartModel} (h₀ : IsBalanced m₀)
    {s s' : Dispatches OrderCartModel} {a : DispatchAction} (h : InOneHand m₀ s)
    (hC : FindsCopy orders s a) (hstep : dispatchesStep orders s a = some s') :
    InOneHand m₀ s' := by
  cases dispatchesMove_of_step hstep with
  | openOn he => exact h.openOn _
  | remove hi hn => exact h.remove h₀ hi hn (hC _ hi _ rfl _ rfl)
  | add hi =>
    obtain ⟨hfit, hfit'⟩ := hC _ hi _ rfl _ rfl
    exact h.add h₀ hi hfit hfit'

/-- **Every amount is in the order once**: each line has one entry, its count
the one it had and the amounts of the calls done on it, and the totals are
the sums. -/
structure IsCreditedTo (m₀ : OrderCartModel) (calls : List CallPhase)
    (m : OrderCartModel) : Prop where
  entry : ∀ l ∈ m₀.items, ∃ d,
    entries OrderModel.orderId m.items l.orderId = [l.withDispatched d]
      ∧ d.toInt = l.dispatched.toInt + credit calls l.orderId
  only : ∀ e ∈ m.items, ∃ l ∈ m₀.items, e.orderId = l.orderId
  quantities : amountSum OrderModel.quantity m.items = m.totalQuantity.toInt
  dispatches : amountSum OrderModel.dispatched m.items = m.deliveredQuantity.toInt

/-- **When no call is between its writes, what is in one hand is in the
document.** -/
theorem InOneHand.isCreditedTo {m₀ : OrderCartModel} (h₀ : IsBalanced m₀)
    {s : Dispatches OrderCartModel} (h : InOneHand m₀ s)
    (hquiet : heldLines s.calls = []) : IsCreditedTo m₀ s.calls s.stored := by
  have hlines := h.lines
  have hkeys := h.nodup h₀
  have hquantities := h.quantities h₀
  have hdispatches := h.dispatches
  rw [hquiet, List.append_nil] at hlines hkeys hquantities hdispatches
  refine ⟨fun l hl => ⟨_, ?_, h.counted l hl⟩, fun e he => ?_, hquantities, hdispatches⟩
  · have hmem : booked s.calls l ∈ s.stored.items :=
      hlines.mem_iff.mpr (List.mem_map_of_mem hl)
    exact entries_of_nodup OrderModel.orderId hkeys hmem
  · obtain ⟨l, hl, rfl⟩ := List.mem_map.mp (hlines.mem_iff.mp he)
    exact ⟨l, hl, rfl⟩

/-- **No dispatch is lost or doubled while every first write finds its
copy.** Of an order whose counts agree, in any run of calls by any number of
clients on any of its lines, each write landing at any moment, if every step
finds what it needs then whenever no call is between its writes every amount
dispatched is in the document exactly once. -/
theorem dispatches_credited (m₀ : OrderCartModel) (h₀ : IsBalanced m₀)
    (as : List DispatchAction) (s : Dispatches Fields)
    (hmeets : Runs.Meets (dispatchesStep documents) (FindsCopy documents)
      ⟨m₀.toMap, []⟩ as)
    (hrun : Runs.run (dispatchesStep documents) ⟨m₀.toMap, []⟩ as = some s)
    (hquiet : heldLines s.calls = []) :
    ∃ m, s.stored = m.toMap ∧ IsCreditedTo m₀ s.calls m := by
  have hstart : (⟨m₀.toMap, []⟩ : Dispatches Fields) = Dispatches.toMap ⟨m₀, []⟩ := rfl
  rw [hstart, Runs.run_map dispatchesStep_toMap] at hrun
  rw [hstart, Runs.meets_map dispatchesStep_toMap] at hmeets
  obtain ⟨t, ht, rfl⟩ := Option.map_eq_some_iff.mp hrun
  simp only [findsCopy_toMap] at hmeets
  have hinv : Runs.Along (dispatchesStep orders) (InOneHand m₀) ⟨m₀, []⟩ as :=
    Runs.along_of_meets (fun s a s' hs hC hstep => hs.step h₀ hC hstep)
      h₀.inOneHand hmeets
  exact ⟨t.stored, rfl, (hinv.last ht).isCreditedTo h₀ hquiet⟩

/-- The law at work, on an order as checkout places it: two lines dispatched
side by side, then the first once more. -/
theorem dispatches_credited_pair :
    ∃ s, Runs.run (dispatchesStep documents)
        ⟨(cartToOrder "u" ⟨0⟩ [cartLine "1" 4, cartLine "2" 2]).toMap, []⟩
        [.openOn (cartLine "1" 4), .openOn (cartLine "2" 2), .remove 0 1, .remove 1 2,
          .add 0, .add 1, .openOn ((cartLine "1" 4).withDispatched 1), .remove 2 2,
          .add 2] = some s
      ∧ ∃ m, s.stored = m.toMap ∧ IsCreditedTo
          (cartToOrder "u" ⟨0⟩ [cartLine "1" 4, cartLine "2" 2]) s.calls m := by
  let c := Cart.pair (cartLine "1" 4) (cartLine "2" 2) (by decide) (by decide) (by decide)
  let as : List DispatchAction :=
    [.openOn (cartLine "1" 4), .openOn (cartLine "2" 2), .remove 0 1, .remove 1 2,
      .add 0, .add 1, .openOn ((cartLine "1" 4).withDispatched 1), .remove 2 2, .add 2]
  have hend : (Runs.run (dispatchesStep documents) ⟨(c.order "u" ⟨0⟩).toMap, []⟩ as).map
      (fun s => heldLines s.calls) = some [] := by decide +kernel
  obtain ⟨s, hrun, hquiet⟩ := Option.map_eq_some_iff.mp hend
  refine ⟨s, hrun, ?_⟩
  exact dispatches_credited (c.order "u" ⟨0⟩)
    (c.isLedgerOf_order "u" ⟨0⟩ (by decide)).isBalanced as s (by decide +kernel) hrun hquiet

/-- **Two dialogs opened on one copy**: both call on a line of four pieces
after reading it undispatched. The second call finds no copy to remove and
leaves a second entry. -/
theorem dispatch_doubled :
    ¬ ∀ (m₀ : OrderCartModel) (as : List DispatchAction) (s : Dispatches Fields),
      IsBalanced m₀ →
      Runs.run (dispatchesStep documents) ⟨m₀.toMap, []⟩ as = some s →
      heldLines s.calls = [] →
      ∃ m, s.stored = m.toMap ∧ IsCreditedTo m₀ s.calls m := by
  intro h
  let l : OrderModel := cartLine "1" 4
  let c := Cart.single l (by decide)
  let m₀ : OrderCartModel := c.order "u" ⟨0⟩
  let m' : OrderCartModel :=
    { m₀ with items := [l.withDispatched 1, l.withDispatched 2], deliveredQuantity := 3 }
  let calls : List CallPhase :=
    [.done (QuantityUpdate.call ⟨l, m₀⟩ 1), .done (QuantityUpdate.call ⟨l, m₀⟩ 2)]
  obtain ⟨m, hm, hcredited⟩ := h m₀
    [.openOn l, .openOn l, .remove 0 1, .add 0, .remove 1 2, .add 1]
    ⟨m'.toMap, calls⟩ (c.isLedgerOf_order "u" ⟨0⟩ (by decide)).isBalanced
    (by decide +kernel) (by decide)
  obtain rfl := OrderCartModel.toMap_injective hm
  exact absurd hcredited.quantities (by decide)
