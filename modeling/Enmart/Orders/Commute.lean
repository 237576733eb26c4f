import Enmart.Orders.Concurrent

/-!
# Dispatches to different lines

Calls of `updateDispatchAmount` on different lines of an order touch different
elements of one array and add to one number, so the order in which their writes
land should not matter. It does not: while the calls are under way, the lines
of the document are those whose call has not begun, those whose call is done,
with their amounts, and the lines no call is about – each of them once, and the
line of a call between its writes missing (`Commuting`). The delivered quantity
saturates, but over amounts that are never negative in whatever order.

So every interleaving ends like every sequence of the same calls
(`dispatches_commute`). The counts of the lines are words, and one that does
not fit wraps.
-/

open Firestore SetArray

namespace CallPhase

/-- The line a call is about, as its caller holds it. -/
def line : CallPhase → OrderModel
  | opened d => d.e
  | between c => c.order
  | done c => c.order

/-- What the document has of the line of a call. -/
def stored? : CallPhase → Option OrderModel
  | opened d => some d.e
  | between _ => none
  | done c => some c.dispatchedOrder

/-- The amount of a call that has begun. -/
def amount? : CallPhase → Option Int64
  | opened _ => none
  | between c => some c.dispatched
  | done c => some c.dispatched

@[simp] theorem orderId_line (p : CallPhase) : p.line.orderId = p.lineId := by
  cases p with
  | opened d => rfl
  | between c => rfl
  | done c => rfl

theorem orderId_of_stored? {p : CallPhase} {o : OrderModel} (h : p.stored? = some o) :
    o.orderId = p.lineId := by
  cases p with
  | opened d => rw [← Option.some.inj h]; rfl
  | between c => exact absurd h (by simp [stored?])
  | done c => rw [← Option.some.inj h]; rfl

end CallPhase

/-- Whether a step is a write of a call. -/
def DispatchAction.isWrite : DispatchAction → Bool
  | openOn _ => false
  | _ => true

/-- The lines of an order after some calls on them: each call's with its amount,
and the others. -/
def dispatchedItems (m₀ : OrderCartModel) (cs : List DispatchCall) : List OrderModel :=
  cs.map DispatchCall.dispatchedOrder
    ++ m₀.items.filter (fun l => l ∉ cs.map DispatchCall.order)

/-! ## One write -/

section Write

variable {m : OrderCartModel} {c : DispatchCall} {others : List OrderModel}

/-- **A first write takes its line out** and leaves the others. -/
theorem items_removeLine {o : OrderModel} (hitems : m.items.Perm (o :: others))
    (hkey : o.orderId ∉ others.map OrderModel.orderId) :
    (m.removeLine o).items.Perm others := by
  have hne : ∀ x ∈ others, x ≠ o := fun x hx hc =>
    hkey (hc ▸ List.mem_map_of_mem hx)
  have hremove : remove (o :: others) [o] = others := by
    rw [remove, List.filter_cons_of_neg (by simp)]
    refine List.filter_eq_self.mpr (fun x hx => ?_)
    rw [decide_eq_true_eq, List.mem_singleton]
    exact hne x hx
  rw [← hremove]
  exact hitems.filter _

/-- **A second write puts its line in**, with the amount. -/
theorem items_addLine (hitems : m.items.Perm others)
    (hkey : c.order.orderId ∉ others.map OrderModel.orderId) :
    (m.addLine c).items.Perm (c.dispatchedOrder :: others) := by
  have hnew : c.dispatchedOrder ∉ m.items := fun hc =>
    hkey (List.mem_map.mpr ⟨_, hitems.mem_iff.mp hc, rfl⟩)
  rw [OrderCartModel.addLine_items, union_of_notMem hnew]
  exact (List.perm_append_singleton _ _).trans (hitems.cons _)

/-- Saturating at each amount is saturating once. -/
theorem toInt_addLine_deliveredQuantity {d : ℤ}
    (hd : m.deliveredQuantity.toInt = min d (2 ^ 63 - 1)) (hc : 0 ≤ c.dispatched.toInt) :
    (m.addLine c).deliveredQuantity.toInt = min (d + c.dispatched.toInt) (2 ^ 63 - 1) := by
  show (safeIncrement m.deliveredQuantity c.dispatched).toInt = _
  rw [toInt_safeIncrement hc, hd]
  omega

end Write

/-! ## The calls one after the other -/

/-- **Calls one after the other** leave each its line, with its amount, and the
lines no call is about. -/
theorem foldl_updateDispatchAmount {cs : List DispatchCall} {m : OrderCartModel}
    {others : List OrderModel} {d : ℤ}
    (hitems : m.items.Perm (cs.map DispatchCall.order ++ others))
    (hkeys : ((cs.map DispatchCall.order ++ others).map OrderModel.orderId).Nodup)
    (hd : m.deliveredQuantity.toInt = min d (2 ^ 63 - 1))
    (hcs : ∀ c ∈ cs, 0 ≤ c.dispatched.toInt) :
    ∃ m' : OrderCartModel,
      cs.foldl (fun doc c => updateDispatchAmount c doc) m.toMap = m'.toMap ∧
      m'.items.Perm (cs.map DispatchCall.dispatchedOrder ++ others) ∧
      m'.deliveredQuantity.toInt
        = min (d + amountSum DispatchCall.dispatched cs) (2 ^ 63 - 1) := by
  induction cs generalizing m others d with
  | nil =>
    refine ⟨m, rfl, hitems, ?_⟩
    rw [amountSum_nil, Int.add_zero]
    exact hd
  | cons c cs ih =>
    obtain ⟨hkey, hkeys'⟩ := List.nodup_cons.mp hkeys
    have hremoved := items_removeLine (m := m) hitems hkey
    have hadded : (m.dispatch c).items.Perm
        (cs.map DispatchCall.order ++ (c.dispatchedOrder :: others)) :=
      (items_addLine hremoved hkey).trans List.perm_middle.symm
    have hnext : ((cs.map DispatchCall.order ++ (c.dispatchedOrder :: others)).map
        OrderModel.orderId).Nodup :=
      ((List.perm_middle.map OrderModel.orderId).nodup_iff).mpr
        (List.nodup_cons.mpr ⟨hkey, hkeys'⟩)
    have hdelivered : (m.dispatch c).deliveredQuantity.toInt
        = min (d + c.dispatched.toInt) (2 ^ 63 - 1) :=
      toInt_addLine_deliveredQuantity (m := m.removeLine c.order) hd
        (hcs c (List.mem_cons_self ..))
    obtain ⟨m', hrun, hitems', hd'⟩ := ih hadded hnext hdelivered
      (fun c' hc' => hcs c' (List.mem_cons_of_mem c hc'))
    refine ⟨m', ?_, hitems'.trans List.perm_middle, ?_⟩
    · rw [List.foldl_cons, OrderCartModel.updateDispatchAmount_toMap]
      exact hrun
    · rw [hd', amountSum_cons, Int.add_assoc]

/-! ## The calls interleaved -/

/-- Where all calls are done, they are the calls done. -/
theorem eq_map_doneCalls {calls : List CallPhase} (h : ∀ p ∈ calls, p.done?.isSome) :
    calls = (doneCalls calls).map .done := by
  induction calls with
  | nil => rfl
  | cons p calls ih =>
    have hp := h p (List.mem_cons_self ..)
    have hcalls := ih (fun q hq => h q (List.mem_cons_of_mem p hq))
    cases p with
    | opened d => exact absurd hp Bool.false_ne_true
    | between c => exact absurd hp Bool.false_ne_true
    | done c => exact congrArg (List.cons (CallPhase.done c)) hcalls

/-- **What is so while the calls are under way.** `others` are the lines no call
is about. -/
structure Commuting (m₀ : OrderCartModel) (ds : List QuantityUpdate)
    (others : List OrderModel) (s : Dispatches OrderCartModel) : Prop where
  /-- The lines of the document are those of the calls not between their writes,
  and the others. -/
  items : s.stored.items.Perm (s.calls.filterMap CallPhase.stored? ++ others)
  /-- The calls are on the lines they were opened on. -/
  lines : s.calls.map CallPhase.line = ds.map QuantityUpdate.e
  /-- No two of the lines share an identifier. -/
  distinct : (s.calls.map CallPhase.lineId ++ others.map OrderModel.orderId).Nodup
  /-- The order's count is the sum of the amounts, cut off at the largest word. -/
  delivered : s.stored.deliveredQuantity.toInt
    = min (m₀.deliveredQuantity.toInt
      + amountSum DispatchCall.dispatched (doneCalls s.calls)) (2 ^ 63 - 1)
  /-- No amount is negative. -/
  amounts : ∀ p ∈ s.calls, ∀ n ∈ p.amount?, 0 ≤ n.toInt

namespace Commuting

variable {m₀ : OrderCartModel} {ds : List QuantityUpdate} {others : List OrderModel}
  {s s' : Dispatches OrderCartModel} {i : ℕ}

/-- What the other calls have in the document does not have the key of a
call. -/
theorem notMem_rest (h : Commuting m₀ ds others s) {p : CallPhase} {rest : List CallPhase}
    (hcalls : s.calls.Perm (p :: rest)) :
    p.lineId ∉ (rest.filterMap CallPhase.stored? ++ others).map OrderModel.orderId := by
  have hnodup := ((hcalls.map CallPhase.lineId).append_right _).nodup_iff.mp h.distinct
  intro hmem
  rw [List.map_append] at hmem
  refine (List.nodup_cons.mp hnodup).1 (List.mem_append.mpr ?_)
  rcases List.mem_append.mp hmem with hrest | hothers
  · obtain ⟨o, ho, hkey⟩ := List.mem_map.mp hrest
    obtain ⟨q, hq, hqo⟩ := List.mem_filterMap.mp ho
    exact Or.inl (List.mem_map.mpr ⟨q, hq, by rw [← hkey, CallPhase.orderId_of_stored? hqo]⟩)
  · exact Or.inr hothers

/-- **A first write** takes its line out of the document. -/
theorem remove (h : Commuting m₀ ds others s) {d : QuantityUpdate} {n : Int64}
    (hi : s.calls[i]? = some (.opened d)) (hn : 0 ≤ n.toInt) :
    Commuting m₀ ds others ⟨s.stored.removeLine d.e, s.calls.set i (.between (d.call n))⟩ := by
  obtain ⟨rest, hcalls, hset⟩ := exists_rest hi
  have hset' := hset (.between (d.call n))
  have hstored : (s.calls.filterMap CallPhase.stored?).Perm
      (d.e :: rest.filterMap CallPhase.stored?) := hcalls.filterMap _
  have hstored' : ((s.calls.set i (.between (d.call n))).filterMap CallPhase.stored?).Perm
      (rest.filterMap CallPhase.stored?) := hset'.filterMap _
  have hrest : (doneCalls s.calls).Perm (doneCalls rest) := hcalls.filterMap _
  have hdone : (doneCalls (s.calls.set i (.between (d.call n)))).Perm (doneCalls rest) :=
    hset'.filterMap _
  constructor
  · have hitems := items_removeLine (h.items.trans (hstored.append_right _))
      (h.notMem_rest hcalls)
    exact hitems.trans (hstored'.append_right _).symm
  · show (s.calls.set i _).map CallPhase.line = _
    rw [map_set_of_eq (y := .between (d.call n)) CallPhase.line hi rfl]
    exact h.lines
  · show ((s.calls.set i _).map CallPhase.lineId ++ _).Nodup
    rw [map_set_of_eq (y := .between (d.call n)) CallPhase.lineId hi rfl]
    exact h.distinct
  · show s.stored.deliveredQuantity.toInt = _
    rw [amountSum_perm _ (hdone.trans hrest.symm)]
    exact h.delivered
  · intro p hp a ha
    rcases List.mem_cons.mp (hset'.mem_iff.mp hp) with rfl | hp
    · obtain rfl := Option.some.inj ha
      exact hn
    · exact h.amounts p (hcalls.mem_iff.mpr (List.mem_cons_of_mem _ hp)) a ha

/-- **A second write** puts its line back, with the amount. -/
theorem add (h : Commuting m₀ ds others s) {c : DispatchCall}
    (hi : s.calls[i]? = some (.between c)) :
    Commuting m₀ ds others ⟨s.stored.addLine c, s.calls.set i (.done c)⟩ := by
  obtain ⟨rest, hcalls, hset⟩ := exists_rest hi
  have hset' := hset (.done c)
  have hstored : (s.calls.filterMap CallPhase.stored?).Perm
      (rest.filterMap CallPhase.stored?) := hcalls.filterMap _
  have hstored' : ((s.calls.set i (.done c)).filterMap CallPhase.stored?).Perm
      (c.dispatchedOrder :: rest.filterMap CallPhase.stored?) := hset'.filterMap _
  have hrest : (doneCalls s.calls).Perm (doneCalls rest) := hcalls.filterMap _
  have hdone : (doneCalls (s.calls.set i (.done c))).Perm (c :: doneCalls rest) :=
    hset'.filterMap _
  have hamount : 0 ≤ c.dispatched.toInt :=
    h.amounts _ (List.mem_of_getElem? hi) _ rfl
  constructor
  · have hitems := items_addLine (c := c) (h.items.trans (hstored.append_right _))
      (h.notMem_rest hcalls)
    exact hitems.trans (hstored'.append_right _).symm
  · show (s.calls.set i _).map CallPhase.line = _
    rw [map_set_of_eq (y := .done c) CallPhase.line hi rfl]
    exact h.lines
  · show ((s.calls.set i _).map CallPhase.lineId ++ _).Nodup
    rw [map_set_of_eq (y := .done c) CallPhase.lineId hi rfl]
    exact h.distinct
  · rw [toInt_addLine_deliveredQuantity h.delivered hamount,
      amountSum_perm _ (hdone.trans (hrest.symm.cons c)), amountSum_cons,
      Int.add_comm c.dispatched.toInt, Int.add_assoc]
  · intro p hp a ha
    rcases List.mem_cons.mp (hset'.mem_iff.mp hp) with rfl | hp
    · obtain rfl := Option.some.inj ha
      exact hamount
    · exact h.amounts p (hcalls.mem_iff.mpr (List.mem_cons_of_mem _ hp)) a ha

/-- **A write of a call** keeps what is so. -/
theorem step (h : Commuting m₀ ds others s) {a : DispatchAction} (ha : a.isWrite = true)
    (hstep : dispatchesStep orders s a = some s') : Commuting m₀ ds others s' := by
  cases dispatchesMove_of_step hstep with
  | openOn he => exact absurd ha Bool.false_ne_true
  | remove hi hn => exact h.remove hi hn
  | add hi => exact h.add hi

/-- **The lines of an order** are those the calls are about, and the others. -/
theorem perm_lines (hdistinct : (m₀.items.map OrderModel.orderId).Nodup)
    (hds : ∀ d ∈ ds, d.e ∈ m₀.items) (hlines : (ds.map (fun d => d.e.orderId)).Nodup) :
    m₀.items.Perm (ds.map QuantityUpdate.e
      ++ m₀.items.filter (fun l => l ∉ ds.map QuantityUpdate.e)) := by
  have hcalled : (m₀.items.filter (fun l => l ∈ ds.map QuantityUpdate.e)).Perm
      (ds.map QuantityUpdate.e) := by
    refine (List.perm_ext_iff_of_nodup (hdistinct.of_map _ |>.filter _) ?_).mpr (fun l => ?_)
    · exact List.Nodup.of_map OrderModel.orderId (by rw [List.map_map]; exact hlines)
    · rw [List.mem_filter, decide_eq_true_eq]
      refine and_iff_right_of_imp (fun hl => ?_)
      obtain ⟨d, hd, rfl⟩ := List.mem_map.mp hl
      exact hds d hd
  have hsplit := (List.filter_append_perm (fun l => decide (l ∈ ds.map QuantityUpdate.e))
    m₀.items).symm
  have hnot : m₀.items.filter (fun l => !decide (l ∈ ds.map QuantityUpdate.e))
      = m₀.items.filter (fun l => l ∉ ds.map QuantityUpdate.e) :=
    List.filter_congr (fun l _ => decide_not.symm)
  rw [hnot] at hsplit
  exact hsplit.trans (hcalled.append_right _)

/-- What is so before the first write. -/
theorem start (hdistinct : (m₀.items.map OrderModel.orderId).Nodup)
    (hds : ∀ d ∈ ds, d.e ∈ m₀.items) (hlines : (ds.map (fun d => d.e.orderId)).Nodup) :
    Commuting m₀ ds (m₀.items.filter (fun l => l ∉ ds.map QuantityUpdate.e))
      ⟨m₀, ds.map .opened⟩ := by
  have hperm := perm_lines hdistinct hds hlines
  have hstored : (ds.map CallPhase.opened).filterMap CallPhase.stored?
      = ds.map QuantityUpdate.e := by
    rw [List.filterMap_map, ← List.filterMap_eq_map]
    rfl
  have hdone : doneCalls (ds.map CallPhase.opened) = [] := by
    rw [doneCalls, List.filterMap_map]
    exact List.filterMap_eq_nil_iff.mpr (fun _ _ => rfl)
  constructor
  · show m₀.items.Perm ((ds.map CallPhase.opened).filterMap CallPhase.stored? ++ _)
    rw [hstored]
    exact hperm
  · show (ds.map CallPhase.opened).map CallPhase.line = _
    rw [List.map_map]
    rfl
  · have hkeys := ((hperm.map OrderModel.orderId).nodup_iff).mp hdistinct
    rw [List.map_append, List.map_map] at hkeys
    show ((ds.map CallPhase.opened).map CallPhase.lineId ++ _).Nodup
    rw [List.map_map]
    exact hkeys
  · have hmax := m₀.deliveredQuantity.toInt_lt
    show m₀.deliveredQuantity.toInt = min (_ + amountSum _ (doneCalls (ds.map _))) _
    rw [hdone, amountSum_nil]
    omega
  · intro p hp n hn
    obtain ⟨d, -, rfl⟩ := List.mem_map.mp hp
    exact absurd hn (by simp [CallPhase.amount?])

/-- What is so when all calls are done: they are on the lines the dialogs were
opened on, -/
theorem orders_done (h : Commuting m₀ ds others s)
    (hcalls : s.calls = (doneCalls s.calls).map .done) :
    (doneCalls s.calls).map DispatchCall.order = ds.map QuantityUpdate.e := by
  have hlines : (doneCalls s.calls).map DispatchCall.order = s.calls.map CallPhase.line := by
    refine Eq.trans ?_ (congrArg (List.map CallPhase.line) hcalls).symm
    rw [List.map_map]
    rfl
  rw [hlines]
  exact h.lines

/-- the document has the line of each with its amount, and the others, -/
theorem items_done (h : Commuting m₀ ds others s)
    (hcalls : s.calls = (doneCalls s.calls).map .done) :
    s.stored.items.Perm ((doneCalls s.calls).map DispatchCall.dispatchedOrder ++ others) := by
  have hstored : s.calls.filterMap CallPhase.stored?
      = (doneCalls s.calls).map DispatchCall.dispatchedOrder := by
    refine (congrArg (List.filterMap CallPhase.stored?) hcalls).trans ?_
    rw [List.filterMap_map, ← List.filterMap_eq_map]
    rfl
  rw [← hstored]
  exact h.items

/-- and no amount is negative. -/
theorem amounts_done (h : Commuting m₀ ds others s)
    (hcalls : s.calls = (doneCalls s.calls).map .done) :
    ∀ c ∈ doneCalls s.calls, 0 ≤ c.dispatched.toInt := by
  intro c hc
  refine h.amounts (.done c) ?_ c.dispatched rfl
  rw [hcalls]
  exact List.mem_map_of_mem hc

end Commuting

/-- **Dispatches to different lines commute.** Of any order with distinct lines,
and of any calls on different lines of it, with amounts that are not negative:
in whatever order their writes land, each call's two one after the other, the
document ends with the lines and the delivered quantity it ends with when the
calls run one after the other, in any order – the line of each call with the
amount added to its count as words are, and as numbers are where the sum fits
one, and all other lines as they were. -/
theorem dispatches_commute (m₀ : OrderCartModel)
    (hdistinct : (m₀.items.map OrderModel.orderId).Nodup) (ds : List QuantityUpdate)
    (hds : ∀ d ∈ ds, d.e ∈ m₀.items) (hlines : (ds.map (fun d => d.e.orderId)).Nodup)
    (as : List DispatchAction) (has : ∀ a ∈ as, a.isWrite = true) (s : Dispatches Fields)
    (hrun : Runs.run (dispatchesStep documents) ⟨m₀.toMap, ds.map .opened⟩ as = some s)
    (hdone : ∀ p ∈ s.calls, p.done?.isSome) (cs : List DispatchCall)
    (hcs : cs.Perm (doneCalls s.calls)) :
    ∃ m m' : OrderCartModel, s.stored = m.toMap ∧
      cs.foldl (fun doc c => updateDispatchAmount c doc) m₀.toMap = m'.toMap ∧
      m.items.Perm m'.items ∧ m.deliveredQuantity = m'.deliveredQuantity ∧
      m.items.Perm (dispatchedItems m₀ cs) ∧
      ∀ c ∈ cs, c.order.dispatched.toInt + c.dispatched.toInt < 2 ^ 63 →
        c.dispatchedOrder.dispatched.toInt = c.order.dispatched.toInt + c.dispatched.toInt := by
  have hstart : (⟨m₀.toMap, ds.map .opened⟩ : Dispatches Fields)
      = Dispatches.toMap ⟨m₀, ds.map .opened⟩ := rfl
  rw [hstart, Runs.run_map dispatchesStep_toMap] at hrun
  obtain ⟨t, ht, rfl⟩ := Option.map_eq_some_iff.mp hrun
  have hinv : Runs.Along (dispatchesStep orders)
      (Commuting m₀ ds (m₀.items.filter (fun l => l ∉ ds.map QuantityUpdate.e)))
      ⟨m₀, ds.map .opened⟩ as :=
    Runs.along_of_meets (fun _ _ _ h ha hstep => h.step ha hstep)
      (Commuting.start hdistinct hds hlines) (Runs.meets_of_forall _ has)
  have hend := hinv.last ht
  have hcs' : cs.Perm (doneCalls t.calls) := hcs
  have hcalls : t.calls = (doneCalls t.calls).map .done := eq_map_doneCalls hdone
  have horders : (cs.map DispatchCall.order).Perm (ds.map QuantityUpdate.e) := by
    rw [← hend.orders_done hcalls]
    exact hcs.map _
  have hothers : m₀.items.filter (fun l => l ∉ cs.map DispatchCall.order)
      = m₀.items.filter (fun l => l ∉ ds.map QuantityUpdate.e) :=
    List.filter_congr (fun l _ => decide_eq_decide.mpr (not_congr horders.mem_iff))
  have hamounts : ∀ c ∈ cs, 0 ≤ c.dispatched.toInt :=
    fun c hc => hend.amounts_done hcalls c (hcs.mem_iff.mp hc)
  -- one after the other
  have hperm : m₀.items.Perm (cs.map DispatchCall.order
      ++ m₀.items.filter (fun l => l ∉ cs.map DispatchCall.order)) := by
    rw [hothers]
    exact (Commuting.perm_lines hdistinct hds hlines).trans (horders.symm.append_right _)
  have hmax := m₀.deliveredQuantity.toInt_lt
  obtain ⟨m', hseq, hitems', hdelivered'⟩ := foldl_updateDispatchAmount (m := m₀)
    (d := m₀.deliveredQuantity.toInt) hperm
    (((hperm.map OrderModel.orderId).nodup_iff).mp hdistinct) (by omega) hamounts
  -- interleaved
  have hitems : t.stored.items.Perm (dispatchedItems m₀ cs) := by
    rw [dispatchedItems, hothers]
    exact (hend.items_done hcalls).trans ((hcs.symm.map _).append_right _)
  refine ⟨t.stored, m', rfl, hseq, hitems.trans hitems'.symm, ?_, hitems, fun c hc hfit => ?_⟩
  · have hdelivered := hend.delivered
    rw [← amountSum_perm _ hcs'] at hdelivered
    exact Int64.toInt_inj.mp (hdelivered.trans hdelivered'.symm)
  · have hlow := c.order.dispatched.le_toInt
    have hamount := hamounts c hc
    exact Int64.toInt_add_of_fits ⟨by omega, hfit⟩

/-- The law at work: two calls on two lines, their writes crossed. -/
theorem dispatches_commute_pair :
    ∃ s, Runs.run (dispatchesStep documents)
        ⟨(cartToOrder "u" ⟨0⟩ [cartLine "1" 4, cartLine "2" 2]).toMap,
          [.opened ⟨cartLine "1" 4, cartToOrder "u" ⟨0⟩ [cartLine "1" 4, cartLine "2" 2]⟩,
            .opened ⟨cartLine "2" 2, cartToOrder "u" ⟨0⟩ [cartLine "1" 4, cartLine "2" 2]⟩]⟩
        [.remove 0 1, .remove 1 2, .add 1, .add 0] = some s
      ∧ ∃ m m' : OrderCartModel, s.stored = m.toMap ∧
        (doneCalls s.calls).foldl (fun doc c => updateDispatchAmount c doc)
          (cartToOrder "u" ⟨0⟩ [cartLine "1" 4, cartLine "2" 2]).toMap = m'.toMap ∧
        m.items.Perm m'.items := by
  let m₀ : OrderCartModel := cartToOrder "u" ⟨0⟩ [cartLine "1" 4, cartLine "2" 2]
  let ds : List QuantityUpdate := [⟨cartLine "1" 4, m₀⟩, ⟨cartLine "2" 2, m₀⟩]
  let as : List DispatchAction := [.remove 0 1, .remove 1 2, .add 1, .add 0]
  have hend : (Runs.run (dispatchesStep documents) ⟨m₀.toMap, ds.map .opened⟩ as).map
      (fun s => s.calls.all (fun p => p.done?.isSome)) = some true := by decide +kernel
  obtain ⟨s, hrun, hdone⟩ := Option.map_eq_some_iff.mp hend
  obtain ⟨m, m', hm, hm', hitems, -⟩ := dispatches_commute m₀ (by decide) ds (by decide)
    (by decide) as (by decide) s hrun (List.all_eq_true.mp hdone) (doneCalls s.calls)
    (List.Perm.refl _)
  exact ⟨s, hrun, m, m', hm, hm', hitems⟩

/-- **A count that wraps**: one piece of a line has been dispatched, and the
largest amount is dispatched of it. -/
theorem dispatched_wraps :
    ¬ ∀ (m₀ : OrderCartModel) (ds : List QuantityUpdate) (as : List DispatchAction)
        (s : Dispatches Fields),
      (m₀.items.map OrderModel.orderId).Nodup → (∀ d ∈ ds, d.e ∈ m₀.items) →
      (ds.map (fun d => d.e.orderId)).Nodup → (∀ a ∈ as, a.isWrite = true) →
      Runs.run (dispatchesStep documents) ⟨m₀.toMap, ds.map .opened⟩ as = some s →
      (∀ p ∈ s.calls, p.done?.isSome) →
      ∃ m : OrderCartModel, s.stored = m.toMap ∧ ∀ c ∈ doneCalls s.calls, ∃ e ∈ m.items,
        e.orderId = c.order.orderId ∧
          e.dispatched.toInt = c.order.dispatched.toInt + c.dispatched.toInt := by
  intro h
  let l : OrderModel := (cartLine "1" 4).withDispatched 1
  let m₀ : OrderCartModel := cartToOrder "u" ⟨0⟩ [l]
  let d : QuantityUpdate := ⟨l, m₀⟩
  let m' : OrderCartModel := (m₀.removeLine l).addLine (d.call Int64.maxValue)
  obtain ⟨m, hm, hlines⟩ := h m₀ [d] [.remove 0 Int64.maxValue, .add 0]
    ⟨m'.toMap, [.done (d.call Int64.maxValue)]⟩ (by decide) (by decide) (by decide) (by decide)
    (by decide +kernel) (by decide)
  obtain rfl := OrderCartModel.toMap_injective hm
  exact absurd (hlines (d.call Int64.maxValue) (by decide)) (by decide +kernel)
