import Enmart.Orders.Concurrent

/-!
# The status of an order several clients dispatch from

The second write of a call increments the delivered quantity in the store,
but sets the status the client computed from the delivered quantity it had
read. The two agree unless one of the counts completes the order and the
other does not, so the status agrees with the counts whenever no call is
between its writes exactly when each call that lands last, and completes the
order by the count stored or by the count read, finds the two equal
(`status_agrees_iff`).

Where the calls are on pairwise different lines and none dispatches more than
remains of its line, nothing goes wrong with the lines: every first write
finds its copy, for no one else touches the line (`IsOnTrack`). The counts
are then those of `InOneHand`, and the delivered quantity a client has read
is at most the one stored. So the status can be wrong in one way only: the
write that completes the order was computed from a count that has grown
since, and leaves it pending (`status_agrees_iff_of_apart`).
-/

open Firestore SetArray

/-- The status is *delivered* when everything has been dispatched, and only
then. -/
def StatusAgrees (m : OrderCartModel) : Prop :=
  m.status = .delivered ↔ m.deliveredQuantity = m.totalQuantity

instance (m : OrderCartModel) : Decidable (StatusAgrees m) :=
  inferInstanceAs (Decidable (_ ↔ _))

/-- A document's status agrees when that of the order it stands for does. -/
def DocStatusAgrees (doc : Fields) : Prop :=
  ∃ m, OrderCartModel.fromMap doc = some m ∧ StatusAgrees m

/-- The status of a document is the status of the order it stands for. -/
theorem docStatusAgrees_toMap (m : OrderCartModel) :
    DocStatusAgrees m.toMap ↔ StatusAgrees m :=
  m.exists_fromMap_toMap StatusAgrees

namespace CallPhase

/-- The pieces ordered, as the call knows them. -/
def knownTotal : CallPhase → Int64
  | opened d => d.m.totalQuantity
  | between c => c.totalCartQuantity
  | done c => c.totalCartQuantity

/-- The pieces dispatched before, as the call knows them. -/
def knownDispatched : CallPhase → Int64
  | opened d => d.m.deliveredQuantity
  | between c => c.totalDispatchedCartQuantity
  | done c => c.totalDispatchedCartQuantity

end CallPhase

/-! ## Calls on different lines -/

/-- **Calls on pairwise different lines**, none dispatching more than remains
of its line. -/
def IsApart {δ : Type} (s : Dispatches δ) : DispatchAction → Prop
  | .openOn e => ∀ p ∈ s.calls, p.lineId ≠ e.orderId
  | .remove i n => ∀ p ∈ s.calls[i]?, ∀ o ∈ p.copy?,
      n.toInt ≤ o.quantity.toInt - o.dispatched.toInt
  | .add _ => True

instance {δ : Type} (s : Dispatches δ) :
    (a : DispatchAction) → Decidable (IsApart s a)
  | .openOn _ => inferInstanceAs (Decidable (∀ p ∈ s.calls, _))
  | .remove i _ => inferInstanceAs (Decidable (∀ p ∈ s.calls[i]?, _))
  | .add _ => isTrue trivial

/-- No count is negative, and none is above the quantity. -/
def IsWithin (e : OrderModel) : Prop :=
  0 ≤ e.dispatched.toInt ∧ e.dispatched.toInt ≤ e.quantity.toInt

instance (e : OrderModel) : Decidable (IsWithin e) :=
  inferInstanceAs (Decidable (_ ∧ _))

/-! ## What a second write leaves -/

/-- There is room for the amount in the order's count. -/
def HasRoom (m : OrderCartModel) (c : DispatchCall) : Prop :=
  m.deliveredQuantity.toInt + c.dispatched.toInt < 2 ^ 63

instance (m : OrderCartModel) (c : DispatchCall) : Decidable (HasRoom m c) :=
  inferInstanceAs (Decidable (_ < _))

/-- **The call has read the stored count**, if it completes the order by that
count or by the one it has read. -/
def ReadsFresh (m : OrderCartModel) (c : DispatchCall) : Prop :=
  m.totalQuantity = m.deliveredQuantity + c.dispatched
    ∨ m.totalQuantity = c.totalDispatchedCartQuantity + c.dispatched →
  c.totalDispatchedCartQuantity = m.deliveredQuantity

/-- The call has read the stored count, if it completes the order by that
count. -/
def ClosesFresh (m : OrderCartModel) (c : DispatchCall) : Prop :=
  m.totalQuantity = m.deliveredQuantity + c.dispatched →
  c.totalDispatchedCartQuantity = m.deliveredQuantity

/-- The status a call computes. -/
theorem DispatchCall.status_eq_delivered (c : DispatchCall) :
    c.status = .delivered
      ↔ c.totalCartQuantity = c.totalDispatchedCartQuantity + c.dispatched := by
  unfold DispatchCall.status
  by_cases h : c.totalCartQuantity = c.totalDispatchedCartQuantity + c.dispatched
  · rw [if_pos h]
    exact ⟨fun _ => h, fun _ => rfl⟩
  · rw [if_neg h]
    exact ⟨fun hc => absurd hc (by decide), fun hc => absurd hc h⟩

/-- **The status a second write leaves** agrees with the counts just if the
call is not mistaken about what completes the order. -/
theorem statusAgrees_addLine {m : OrderCartModel} {c : DispatchCall}
    (htotal : c.totalCartQuantity = m.totalQuantity) (hamount : 0 ≤ c.dispatched.toInt)
    (hroom : HasRoom m c) : StatusAgrees (m.addLine c) ↔ ReadsFresh m c := by
  have hlow := m.deliveredQuantity.le_toInt
  have hfits : Int64.Fits (m.deliveredQuantity.toInt + c.dispatched.toInt) :=
    ⟨by omega, hroom⟩
  have hstored : safeIncrement m.deliveredQuantity c.dispatched
      = m.deliveredQuantity + c.dispatched :=
    Int64.toInt_inj.mp (by
      rw [toInt_safeIncrement_of_fits hamount hfits, Int64.toInt_add_of_fits hfits])
  show (c.status = .delivered
    ↔ safeIncrement m.deliveredQuantity c.dispatched = m.totalQuantity) ↔ _
  rw [c.status_eq_delivered, htotal, hstored]
  constructor
  · rintro hiff (hd | hk)
    · exact (Int64.add_left_inj _).mp ((hiff.mpr hd.symm).symm.trans hd)
    · exact (Int64.add_left_inj _).mp (hk.symm.trans (hiff.mp hk).symm)
  · intro hfresh
    constructor
    · intro hk
      rw [← hfresh (Or.inr hk)]
      exact hk.symm
    · intro hd
      rw [hfresh (Or.inl hd.symm)]
      exact hd.symm

/-! ## The call that lands last -/

/-- **A condition on the call that lands last**: on each second write that
lands while no other call is between its writes, and the order it finds. -/
def AtLast {δ : Type} (R : OrderCartModel → DispatchCall → Prop) (st : OrderStore δ)
    (s : Dispatches δ) : DispatchAction → Prop
  | .openOn _ => True
  | .remove _ _ => True
  | .add i => ∀ p ∈ s.calls[i]?, ∀ c ∈ p.between?, ∀ m ∈ st.read s.stored,
      heldLines (s.calls.set i (.done c)) = [] → R m c

instance {δ : Type} (R : OrderCartModel → DispatchCall → Prop)
    [∀ m c, Decidable (R m c)] (st : OrderStore δ) (s : Dispatches δ) :
    (a : DispatchAction) → Decidable (AtLast R st s a)
  | .openOn _ => isTrue trivial
  | .remove _ _ => isTrue trivial
  | .add i => inferInstanceAs (Decidable (∀ p ∈ s.calls[i]?, _))

section AtLast

variable {R R' : OrderCartModel → DispatchCall → Prop} {s s' : Dispatches OrderCartModel}
  {a : DispatchAction}

/-- Whether the call that lands last meets a condition is a matter of the order a
document stands for. -/
theorem atLast_toMap : AtLast R documents s.toMap a ↔ AtLast R orders s a := by
  have hread : documents.read s.toMap.stored = orders.read s.stored :=
    OrderCartModel.fromMap_toMap s.stored
  cases a with
  | openOn e => exact Iff.rfl
  | remove i n => exact Iff.rfl
  | add i =>
    unfold AtLast
    rw [hread]
    exact Iff.rfl

/-- Two conditions on the call that lands last are one. -/
theorem AtLast.and (h : AtLast R orders s a) (h' : AtLast R' orders s a) :
    AtLast (fun m c => R m c ∧ R' m c) orders s a := by
  cases a with
  | openOn e => trivial
  | remove i n => trivial
  | add i =>
    intro p hp c hc m hm hquiet
    exact ⟨h p hp c hc m hm hquiet, h' p hp c hc m hm hquiet⟩

/-- A condition follows from another that implies it of the calls between
their writes. -/
theorem AtLast.imp (h : AtLast R orders s a)
    (himp : ∀ (i : ℕ) c, s.calls[i]? = some (.between c) → R s.stored c → R' s.stored c) :
    AtLast R' orders s a := by
  cases a with
  | openOn e => trivial
  | remove i n => trivial
  | add i =>
    intro p hp c hc m hm hquiet
    have hbetween : p = .between c := by
      cases p with
      | opened d => exact absurd hc (by simp [CallPhase.between?])
      | between c' => rw [Option.some.inj hc]
      | done c' => exact absurd hc (by simp [CallPhase.between?])
    obtain rfl := Option.some.inj hm
    exact himp i c (by rw [← hbetween]; exact hp) (h p hp c hc _ rfl hquiet)

/-- The status agrees with the counts, unless a call is between its
writes. -/
def QuietAgrees (s : Dispatches OrderCartModel) : Prop :=
  heldLines s.calls = [] → StatusAgrees s.stored

/-- **Only the call that lands last can spoil the status.** -/
theorem quietAgrees_of_step (h : QuietAgrees s)
    (hstep : dispatchesStep orders s a = some s') :
    QuietAgrees s' ↔ AtLast (fun m c => StatusAgrees (m.addLine c)) orders s a := by
  cases dispatchesMove_of_step hstep with
  | openOn he =>
    refine ⟨fun _ => trivial, fun _ hquiet => h ?_⟩
    rw [← hquiet]
    exact (heldLines_append_opened s.calls _).symm
  | @remove i n d hi hn =>
    refine ⟨fun _ => trivial, fun _ hquiet => ?_⟩
    -- the call just begun is between its writes
    have hheld := mem_heldLines_set hi (d.call n)
    rw [hquiet] at hheld
    exact absurd hheld List.not_mem_nil
  | add hi =>
    constructor
    · intro hs' p hp c hc m hm hquiet
      obtain rfl := Option.some.inj (hi.symm.trans hp)
      obtain rfl := Option.some.inj hc
      obtain rfl := Option.some.inj hm
      exact hs' hquiet
    · intro hlast hquiet
      exact hlast _ hi _ rfl _ rfl hquiet

end AtLast

/-! ## What the calls know of the order -/

/-- The calls know the total of the order, and none in progress has a
negative amount. -/
structure KnowsTotal (s : Dispatches OrderCartModel) : Prop where
  total : ∀ p ∈ s.calls, p.knownTotal = s.stored.totalQuantity
  amounts : ∀ c, CallPhase.between c ∈ s.calls → 0 ≤ c.dispatched.toInt

namespace KnowsTotal

variable {s s' : Dispatches OrderCartModel} {a : DispatchAction}

/-- No step changes the total, so what is known of it stays true. -/
theorem step (h : KnowsTotal s) (hmove : DispatchesMove s a s') : KnowsTotal s' := by
  cases hmove with
  | openOn he =>
    constructor
    · intro p hp
      rcases List.mem_append.mp hp with hp | hp
      · exact h.total p hp
      · rw [List.mem_singleton.mp hp]
        rfl
    · intro c hc
      rcases List.mem_append.mp hc with hc | hc
      · exact h.amounts c hc
      · exact absurd (List.mem_singleton.mp hc) (by simp)
  | @remove i n d hi hn =>
    constructor
    · intro p hp
      rcases List.mem_or_eq_of_mem_set hp with hp | rfl
      · exact h.total p hp
      · exact h.total (.opened d) (List.mem_of_getElem? hi)
    · intro c hc
      rcases List.mem_or_eq_of_mem_set hc with hc | hc
      · exact h.amounts c hc
      · obtain rfl := CallPhase.between.inj hc
        exact hn
  | @add i c hi =>
    constructor
    · intro p hp
      rcases List.mem_or_eq_of_mem_set hp with hp | rfl
      · exact h.total p hp
      · exact h.total (.between c) (List.mem_of_getElem? hi)
    · intro c' hc'
      rcases List.mem_or_eq_of_mem_set hc' with hc' | hc'
      · exact h.amounts c' hc'
      · exact absurd hc' (by simp)

/-- Where there is room, the status is right after the call that lands last
just if that call has read the stored count. -/
theorem atLast_iff (h : KnowsTotal s) (hroom : AtLast HasRoom orders s a) :
    AtLast (fun m c => StatusAgrees (m.addLine c)) orders s a
      ↔ AtLast ReadsFresh orders s a := by
  have hcall : ∀ (i : ℕ) c, s.calls[i]? = some (.between c) → HasRoom s.stored c →
      (StatusAgrees (s.stored.addLine c) ↔ ReadsFresh s.stored c) := by
    intro i c hi hr
    have hmem := List.mem_of_getElem? hi
    exact statusAgrees_addLine (h.total (.between c) hmem) (h.amounts c hmem) hr
  constructor
  · intro hstatus
    exact (hroom.and hstatus).imp (fun i c hi hr => (hcall i c hi hr.1).mp hr.2)
  · intro hfresh
    exact (hroom.and hfresh).imp (fun i c hi hr => (hcall i c hi hr.1).mpr hr.2)

end KnowsTotal

/-- Of documents, the law on the orders they stand for. -/
theorem along_docStatusAgrees (m₀ : OrderCartModel) (as : List DispatchAction) :
    Runs.Along (dispatchesStep documents)
        (fun s => heldLines s.calls = [] → DocStatusAgrees s.stored) ⟨m₀.toMap, []⟩ as
      ↔ Runs.Along (dispatchesStep orders) QuietAgrees ⟨m₀, []⟩ as := by
  have hstart : (⟨m₀.toMap, []⟩ : Dispatches Fields) = Dispatches.toMap ⟨m₀, []⟩ := rfl
  have hlaw : (fun s : Dispatches OrderCartModel =>
        heldLines s.toMap.calls = [] → DocStatusAgrees s.toMap.stored) = QuietAgrees := by
    funext s
    exact propext (imp_congr_right (fun _ => docStatusAgrees_toMap s.stored))
  rw [hstart, Runs.along_map dispatchesStep_toMap, hlaw]

/-- Of documents, a condition on the call that lands last is one on the
orders they stand for. -/
theorem meets_atLast (R : OrderCartModel → DispatchCall → Prop) (m₀ : OrderCartModel)
    (as : List DispatchAction) :
    Runs.Meets (dispatchesStep documents) (AtLast R documents) ⟨m₀.toMap, []⟩ as
      ↔ Runs.Meets (dispatchesStep orders) (AtLast R orders) ⟨m₀, []⟩ as := by
  have hstart : (⟨m₀.toMap, []⟩ : Dispatches Fields) = Dispatches.toMap ⟨m₀, []⟩ := rfl
  rw [hstart, Runs.meets_map dispatchesStep_toMap]
  simp only [atLast_toMap]

/-- **When the status agrees with the counts.** Of any order whose status
agrees, in any run of calls by any number of clients on any of its lines, the
count of pieces delivered staying within a word, the status agrees with the
counts whenever no call is between its writes – exactly when each call that
lands last, and completes the order by the count stored or by the count it
has read, has read the count that is stored. -/
theorem status_agrees_iff (m₀ : OrderCartModel) (hstatus : StatusAgrees m₀)
    (as : List DispatchAction)
    (hroom : Runs.Meets (dispatchesStep documents) (AtLast HasRoom documents)
      ⟨m₀.toMap, []⟩ as) :
    Runs.Along (dispatchesStep documents)
        (fun s => heldLines s.calls = [] → DocStatusAgrees s.stored) ⟨m₀.toMap, []⟩ as
      ↔ Runs.Meets (dispatchesStep documents) (AtLast ReadsFresh documents)
          ⟨m₀.toMap, []⟩ as := by
  rw [meets_atLast] at hroom
  rw [along_docStatusAgrees, meets_atLast]
  refine Runs.along_iff_meets_of_meets
    (I := fun s => KnowsTotal s ∧ QuietAgrees s) (fun s h => h.2) ?_ ?_ ?_ hroom
  · rintro s a s' ⟨hknows, hlaw⟩ hr hfresh hstep
    exact ⟨hknows.step (dispatchesMove_of_step hstep),
      (quietAgrees_of_step hlaw hstep).mpr ((hknows.atLast_iff hr).mpr hfresh)⟩
  · rintro s a s' ⟨hknows, hlaw⟩ hr hfresh hstep hlaw'
    exact hfresh ((hknows.atLast_iff hr).mp ((quietAgrees_of_step hlaw hstep).mp hlaw'))
  · exact ⟨⟨fun p hp => absurd hp List.not_mem_nil,
      fun c hc => absurd hc List.not_mem_nil⟩, fun _ => hstatus⟩

/-- The law at work on an order as checkout places it: two lines, the second
call opened when the first is done. -/
theorem status_agrees_iff_pair :
    Runs.Along (dispatchesStep documents)
        (fun s => heldLines s.calls = [] → DocStatusAgrees s.stored)
        ⟨(cartToOrder "u" ⟨0⟩ [cartLine "1" 1, cartLine "2" 1]).toMap, []⟩
        [.openOn (cartLine "1" 1), .remove 0 1, .add 0, .openOn (cartLine "2" 1),
          .remove 1 1, .add 1]
      ↔ Runs.Meets (dispatchesStep documents) (AtLast ReadsFresh documents)
          ⟨(cartToOrder "u" ⟨0⟩ [cartLine "1" 1, cartLine "2" 1]).toMap, []⟩
          [.openOn (cartLine "1" 1), .remove 0 1, .add 0, .openOn (cartLine "2" 1),
            .remove 1 1, .add 1] :=
  status_agrees_iff (cartToOrder "u" ⟨0⟩ [cartLine "1" 1, cartLine "2" 1]) (by decide)
    [.openOn (cartLine "1" 1), .remove 0 1, .add 0, .openOn (cartLine "2" 1),
      .remove 1 1, .add 1] (by decide +kernel)

/-- **Everything dispatched, and pending**: two clients open the dialog on a
line each while nothing has been dispatched. Each finds the order not
completed by its own amount. -/
theorem dispatched_pending :
    ¬ ∀ (m₀ : OrderCartModel) (as : List DispatchAction), IsBalanced m₀ →
      (∀ e ∈ m₀.items, IsWithin e) → StatusAgrees m₀ →
      Runs.Meets (dispatchesStep documents) IsApart ⟨m₀.toMap, []⟩ as →
      Runs.Along (dispatchesStep documents)
        (fun s => heldLines s.calls = [] → DocStatusAgrees s.stored) ⟨m₀.toMap, []⟩ as := by
  intro h
  let l : OrderModel := cartLine "1" 1
  let l' : OrderModel := cartLine "2" 1
  let c := Cart.pair l l' (by decide) (by decide) (by decide)
  let m₀ : OrderCartModel := c.order "u" ⟨0⟩
  let m' : OrderCartModel :=
    { m₀ with items := [l.withDispatched 1, l'.withDispatched 1], deliveredQuantity := 2 }
  let as : List DispatchAction :=
    [.openOn l, .openOn l', .remove 0 1, .add 0, .remove 1 1, .add 1]
  have hrun : Runs.run (dispatchesStep documents) ⟨m₀.toMap, []⟩ as
      = some ⟨m'.toMap, [.done (QuantityUpdate.call ⟨l, m₀⟩ 1),
          .done (QuantityUpdate.call ⟨l', m₀⟩ 1)]⟩ := by decide +kernel
  have hlaw := (h m₀ as (c.isLedgerOf_order "u" ⟨0⟩ (by decide)).isBalanced (by decide)
    (by decide) (by decide +kernel)).last hrun (by decide)
  exact absurd ((docStatusAgrees_toMap m').mp hlaw) (by decide)

/-! ## The calls on track -/

/-- **The calls are on track**: each has a line to itself that it finds, room
for its amount, and a count no larger than the stored one. -/
structure IsOnTrack (m₀ : OrderCartModel) (s : Dispatches OrderCartModel) : Prop where
  hand : InOneHand m₀ s
  knows : KnowsTotal s
  /-- No two calls are on one line. -/
  distinct : (s.calls.map CallPhase.lineId).Nodup
  /-- An open dialog holds its line as it is stored. -/
  copy : ∀ d, CallPhase.opened d ∈ s.calls → d.e ∈ s.stored.items
  /-- No line is dispatched beyond its quantity. -/
  within : ∀ e ∈ s.stored.items ++ heldLines s.calls, IsWithin e
  /-- The amount of a call in progress is at most what remains of its line. -/
  room : ∀ c, CallPhase.between c ∈ s.calls →
    c.dispatched.toInt ≤ c.order.quantity.toInt - c.order.dispatched.toInt
  /-- What a call knows to be dispatched is, though more may be. -/
  known : ∀ p ∈ s.calls, 0 ≤ p.knownDispatched.toInt
    ∧ p.knownDispatched.toInt ≤ s.stored.deliveredQuantity.toInt

namespace IsOnTrack

variable {m₀ : OrderCartModel} {s : Dispatches OrderCartModel}

/-- What has been dispatched is not negative. -/
theorem delivered_nonneg (h : IsOnTrack m₀ s) : 0 ≤ s.stored.deliveredQuantity.toInt := by
  rw [← h.hand.dispatches]
  exact amountSum_nonneg (fun e he => (h.within e he).1)

/-- **A call in progress fits the order**: its amount and what has been
dispatched are at most what was ordered. -/
theorem delivered_add_le (h : IsOnTrack m₀ s) (h₀ : IsBalanced m₀) {i : ℕ}
    {c : DispatchCall} (hi : s.calls[i]? = some (.between c)) :
    s.stored.deliveredQuantity.toInt + c.dispatched.toInt
      ≤ s.stored.totalQuantity.toInt := by
  obtain ⟨others, hbefore, -, -⟩ := h.hand.perm_add h₀ hi
  have hroom := h.room c (List.mem_of_getElem? hi)
  have hothers : amountSum OrderModel.dispatched others
      ≤ amountSum OrderModel.quantity others :=
    amountSum_le (fun x hx => (h.within x
      (hbefore.mem_iff.mpr (List.mem_cons_of_mem _ hx))).2)
  rw [← h.hand.dispatches, ← h.hand.quantities h₀, amountSum_perm _ hbefore,
    amountSum_perm OrderModel.quantity hbefore, amountSum_cons, amountSum_cons]
  omega

/-- There is room in the order's count for the amount of a call that is under way. -/
theorem hasRoom (h : IsOnTrack m₀ s) (h₀ : IsBalanced m₀) {i : ℕ} {c : DispatchCall}
    (hi : s.calls[i]? = some (.between c)) : HasRoom s.stored c :=
  Int.lt_of_le_of_lt (h.delivered_add_le h₀ hi) s.stored.totalQuantity.toInt_lt

/-- A dialog opened on a line no call is on. -/
theorem openOn (h : IsOnTrack m₀ s) {e : OrderModel} (he : e ∈ s.stored.items)
    (hapart : ∀ p ∈ s.calls, p.lineId ≠ e.orderId) :
    IsOnTrack m₀ ⟨s.stored, s.calls ++ [.opened ⟨e, s.stored⟩]⟩ := by
  have hmem : ∀ p ∈ s.calls ++ [CallPhase.opened ⟨e, s.stored⟩],
      p ∈ s.calls ∨ p = .opened ⟨e, s.stored⟩ := by
    intro p hp
    rw [List.mem_append, List.mem_singleton] at hp
    exact hp
  refine ⟨h.hand.openOn _, h.knows.step (.openOn he), ?_, ?_, ?_, ?_, ?_⟩
  · rw [List.map_append, List.nodup_append]
    refine ⟨h.distinct, List.pairwise_singleton _ _, ?_⟩
    intro k hk k' hk' heq
    obtain ⟨p, hp, rfl⟩ := List.mem_map.mp hk
    exact hapart p hp (heq.trans (List.mem_singleton.mp hk'))
  · intro d hd
    rcases hmem _ hd with hd | hd
    · exact h.copy d hd
    · obtain rfl := CallPhase.opened.inj hd
      exact he
  · show ∀ x ∈ s.stored.items ++ heldLines _, IsWithin x
    rw [heldLines_append_opened]
    exact h.within
  · intro c hc
    rcases hmem _ hc with hc | hc
    · exact h.room c hc
    · exact absurd hc (by simp)
  · intro p hp
    rcases hmem p hp with hp | rfl
    · exact h.known p hp
    · exact ⟨h.delivered_nonneg, Int.le_refl _⟩

/-- A first write, which finds its copy. -/
theorem remove (h : IsOnTrack m₀ s) (h₀ : IsBalanced m₀) {i : ℕ} {n : Int64}
    {d : QuantityUpdate} (hi : s.calls[i]? = some (.opened d)) (hn : 0 ≤ n.toInt)
    (hroom : n.toInt ≤ d.e.quantity.toInt - d.e.dispatched.toInt) :
    IsOnTrack m₀ ⟨s.stored.removeLine d.e, s.calls.set i (.between (d.call n))⟩ := by
  have hopen := List.mem_of_getElem? hi
  have hcopy := h.copy d hopen
  have hmove := h.hand.perm_remove h₀ (n := n) hi hcopy
  obtain ⟨rest, hcalls, hset⟩ := exists_rest hi
  have hset' := hset (.between (d.call n))
  have hdistinct := h.distinct
  rw [(hcalls.map CallPhase.lineId).nodup_iff] at hdistinct
  have hmem : ∀ p ∈ s.calls.set i (.between (d.call n)),
      p = .between (d.call n) ∨ p ∈ rest :=
    fun p hp => List.mem_cons.mp (hset'.mem_iff.mp hp)
  have hrest : ∀ p ∈ rest, p ∈ s.calls :=
    fun p hp => hcalls.mem_iff.mpr (List.mem_cons_of_mem _ hp)
  refine ⟨h.hand.remove h₀ hi hn hcopy, h.knows.step (.remove hi hn), ?_, ?_, ?_, ?_, ?_⟩
  · rw [(hset'.map CallPhase.lineId).nodup_iff]
    exact hdistinct
  · intro d' hd'
    rcases hmem _ hd' with hd' | hd'
    · exact absurd hd' (by simp)
    · -- the line removed is not the one this dialog is on
      refine mem_remove.mpr ⟨h.copy d' (hrest _ hd'), fun hc => ?_⟩
      have heq := List.mem_singleton.mp hc
      refine (List.nodup_cons.mp hdistinct).1 (List.mem_map.mpr ⟨_, hd', ?_⟩)
      exact congrArg OrderModel.orderId heq
  · intro x hx
    exact h.within x (hmove.mem_iff.mp hx)
  · intro c hc
    rcases hmem _ hc with hc | hc
    · obtain rfl := CallPhase.between.inj hc
      exact hroom
    · exact h.room c (hrest _ hc)
  · intro p hp
    rcases hmem p hp with rfl | hp
    · exact h.known (.opened d) hopen
    · exact h.known p (hrest p hp)

/-- The second write of a call keeps the calls on track. -/
theorem add (h : IsOnTrack m₀ s) (h₀ : IsBalanced m₀) {i : ℕ} {c : DispatchCall}
    (hi : s.calls[i]? = some (.between c)) :
    IsOnTrack m₀ ⟨s.stored.addLine c, s.calls.set i (.done c)⟩ := by
  have hcall := List.mem_of_getElem? hi
  have hamount := h.hand.amounts c hcall
  have hroom := h.room c hcall
  have hfit := h.hasRoom h₀ hi
  have hnn := h.delivered_nonneg
  have horder : (s.stored.addLine c).deliveredQuantity.toInt
      = s.stored.deliveredQuantity.toInt + c.dispatched.toInt :=
    toInt_safeIncrement_of_fits hamount ⟨by omega, hfit⟩
  obtain ⟨others, hbefore, hafter, -⟩ := h.hand.perm_add h₀ hi
  obtain ⟨hlow, -⟩ := h.within c.order (hbefore.mem_iff.mpr (List.mem_cons_self ..))
  have hquantity := c.order.quantity.toInt_lt
  have hline : (c.order.dispatched + c.dispatched).toInt
      = c.order.dispatched.toInt + c.dispatched.toInt :=
    Int64.toInt_add_of_fits ⟨by omega, by omega⟩
  obtain ⟨rest, hcalls, hset⟩ := exists_rest hi
  have hset' := hset (.done c)
  have hmem : ∀ p ∈ s.calls.set i (.done c), p = .done c ∨ p ∈ rest :=
    fun p hp => List.mem_cons.mp (hset'.mem_iff.mp hp)
  have hrest : ∀ p ∈ rest, p ∈ s.calls :=
    fun p hp => hcalls.mem_iff.mpr (List.mem_cons_of_mem _ hp)
  refine ⟨h.hand.add h₀ hi hfit (by omega), h.knows.step (.add hi), ?_, ?_, ?_, ?_, ?_⟩
  · rw [(hset'.map CallPhase.lineId).nodup_iff]
    have hdistinct := h.distinct
    rw [(hcalls.map CallPhase.lineId).nodup_iff] at hdistinct
    exact hdistinct
  · intro d hd
    rcases hmem _ hd with hd | hd
    · exact absurd hd (by simp)
    · exact mem_union_singleton.mpr (Or.inl (h.copy d (hrest _ hd)))
  · intro x hx
    rcases List.mem_cons.mp (hafter.mem_iff.mp hx) with rfl | hx
    · show 0 ≤ (c.order.dispatched + c.dispatched).toInt
        ∧ (c.order.dispatched + c.dispatched).toInt ≤ c.order.quantity.toInt
      omega
    · exact h.within x (hbefore.mem_iff.mpr (List.mem_cons_of_mem _ hx))
  · intro c' hc'
    rcases hmem _ hc' with hc' | hc'
    · exact absurd hc' (by simp)
    · exact h.room c' (hrest _ hc')
  · intro p hp
    rw [horder]
    have hknown : 0 ≤ p.knownDispatched.toInt
        ∧ p.knownDispatched.toInt ≤ s.stored.deliveredQuantity.toInt := by
      rcases hmem p hp with rfl | hp
      · exact h.known (.between c) hcall
      · exact h.known p (hrest p hp)
    omega

/-- **A call on track that completes the order by the count it has read**
completes it by the count stored, which is then the same. -/
theorem readsFresh_iff (h : IsOnTrack m₀ s) (h₀ : IsBalanced m₀) {i : ℕ}
    {c : DispatchCall} (hi : s.calls[i]? = some (.between c)) :
    ReadsFresh s.stored c ↔ ClosesFresh s.stored c := by
  refine ⟨fun hfresh htotal => hfresh (Or.inl htotal), fun hcloses htotal => ?_⟩
  rcases htotal with htotal | htotal
  · exact hcloses htotal
  · have hamount := h.hand.amounts c (List.mem_of_getElem? hi)
    have hle := h.delivered_add_le h₀ hi
    have hmax := s.stored.totalQuantity.toInt_lt
    obtain ⟨hlow, hhigh⟩ : 0 ≤ c.totalDispatchedCartQuantity.toInt
        ∧ c.totalDispatchedCartQuantity.toInt ≤ s.stored.deliveredQuantity.toInt :=
      h.known _ (List.mem_of_getElem? hi)
    have hread := congrArg Int64.toInt htotal
    rw [Int64.toInt_add_of_fits ⟨by omega, by omega⟩] at hread
    exact Int64.toInt_inj.mp (by omega)

/-- **A step keeps the calls on track**, if they are apart. -/
theorem step (h : IsOnTrack m₀ s) (h₀ : IsBalanced m₀)
    {s' : Dispatches OrderCartModel} {a : DispatchAction} (hapart : IsApart s a)
    (hstep : dispatchesStep orders s a = some s') : IsOnTrack m₀ s' := by
  cases dispatchesMove_of_step hstep with
  | openOn he => exact h.openOn he hapart
  | remove hi hn => exact h.remove h₀ hi hn (hapart _ hi _ rfl)
  | add hi => exact h.add h₀ hi

/-- With the calls on track the status is right after the call that lands
last just if that call, where it completes the order, has read the stored
count. -/
theorem atLast_iff (h : IsOnTrack m₀ s) (h₀ : IsBalanced m₀) {a : DispatchAction} :
    AtLast (fun m c => StatusAgrees (m.addLine c)) orders s a
      ↔ AtLast ClosesFresh orders s a := by
  have htrivial : AtLast (fun _ _ => True) orders s a := by
    cases a with
    | openOn e => trivial
    | remove i n => trivial
    | add i => exact fun _ _ _ _ _ _ _ => trivial
  rw [h.knows.atLast_iff (htrivial.imp (fun i c hi _ => h.hasRoom h₀ hi))]
  constructor
  · exact fun hr => hr.imp (fun i c hi => (h.readsFresh_iff h₀ hi).mp)
  · exact fun hr => hr.imp (fun i c hi => (h.readsFresh_iff h₀ hi).mpr)

end IsOnTrack

/-- The calls are on track before there is one. -/
theorem IsBalanced.isOnTrack {m₀ : OrderCartModel} (h : IsBalanced m₀)
    (hwithin : ∀ e ∈ m₀.items, IsWithin e) : IsOnTrack m₀ ⟨m₀, []⟩ where
  hand := h.inOneHand
  knows := ⟨fun _ hp => absurd hp List.not_mem_nil, fun _ hc => absurd hc List.not_mem_nil⟩
  distinct := List.nodup_nil
  copy _ hd := absurd hd List.not_mem_nil
  within e he := hwithin e (by rwa [show heldLines [] = [] from rfl, List.append_nil] at he)
  room _ hc := absurd hc List.not_mem_nil
  known _ hp := absurd hp List.not_mem_nil

/-- **With calls on different lines only a stale completion spoils the
status.** Of an order whose counts agree and whose status does, in any run of
calls on pairwise different lines, none dispatching more than remains, the
status agrees with the counts whenever no call is between its writes –
exactly when each call that lands last and completes the order has read the
delivered quantity stored when it lands. -/
theorem status_agrees_iff_of_apart (m₀ : OrderCartModel) (h₀ : IsBalanced m₀)
    (hwithin : ∀ e ∈ m₀.items, IsWithin e) (hstatus : StatusAgrees m₀)
    (as : List DispatchAction)
    (hapart : Runs.Meets (dispatchesStep documents) IsApart ⟨m₀.toMap, []⟩ as) :
    Runs.Along (dispatchesStep documents)
        (fun s => heldLines s.calls = [] → DocStatusAgrees s.stored) ⟨m₀.toMap, []⟩ as
      ↔ Runs.Meets (dispatchesStep documents) (AtLast ClosesFresh documents)
          ⟨m₀.toMap, []⟩ as := by
  have hstart : (⟨m₀.toMap, []⟩ : Dispatches Fields) = Dispatches.toMap ⟨m₀, []⟩ := rfl
  rw [hstart, Runs.meets_map dispatchesStep_toMap] at hapart
  rw [along_docStatusAgrees, meets_atLast]
  refine Runs.along_iff_meets_of_meets
    (I := fun s => IsOnTrack m₀ s ∧ QuietAgrees s) (fun s h => h.2) ?_ ?_
    ⟨h₀.isOnTrack hwithin, fun _ => hstatus⟩ hapart
  · rintro s a s' ⟨htrack, hlaw⟩ hD hcloses hstep
    exact ⟨htrack.step h₀ hD hstep,
      (quietAgrees_of_step hlaw hstep).mpr ((htrack.atLast_iff h₀).mpr hcloses)⟩
  · rintro s a s' ⟨htrack, hlaw⟩ hD hcloses hstep hlaw'
    exact hcloses ((htrack.atLast_iff h₀).mp ((quietAgrees_of_step hlaw hstep).mp hlaw'))
