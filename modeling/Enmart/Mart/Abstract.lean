import Enmart.Base.Refinement

/-!
# What the mart is for

Customers put pieces of products in a basket, buy what is in it, and are sent
what they have bought, a part at a time. That is all there is to it here: no
documents, no devices and no totals, a basket for each customer and, under the
key of each order, what was ordered and how much of it has been sent.

No piece is lost or made: what a customer has put in the basket is in it or has
been ordered (`Mart.held_run`), and what has been sent of an order is what the
mart sent of it (`Mart.sentUnder_run`).
-/

/-- Pieces of a product, put in a basket together. -/
structure Item where
  productId : String
  pieces : ℕ
  deriving DecidableEq

/-- **What a customer has ordered of a product**: what has been sent, and what
has not. -/
structure Entry where
  customer : String
  productId : String
  sent : ℕ
  remaining : ℕ
  deriving DecidableEq

namespace Entry

/-- An item when it is ordered. -/
def ofItem (customer : String) (i : Item) : Entry := ⟨customer, i.productId, 0, i.pieces⟩

/-- The entry once more of it has been sent. -/
def send (e : Entry) (n : ℕ) : Entry :=
  { e with sent := e.sent + n, remaining := e.remaining - n }

/-- The pieces ordered, sent or not. -/
def pieces (e : Entry) : ℕ := e.sent + e.remaining

/-- Sending changes nothing of what was ordered. -/
theorem pieces_send {e : Entry} {n : ℕ} (h : n ≤ e.remaining) : (e.send n).pieces = e.pieces := by
  show e.sent + n + (e.remaining - n) = e.sent + e.remaining
  omega

/-- An entry as one customer sees it, weighed. -/
def heldBy {M : Type} [AddCommMonoid M] (customer : String) (g : Item → M) (e : Entry) : M :=
  if e.customer = customer then g ⟨e.productId, e.pieces⟩ else 0

end Entry

/-- **A mart.** -/
structure Mart where
  /-- What is in each customer's basket. -/
  basket : String → Multiset Item
  /-- What was ordered under each key. -/
  orders : String →₀ Multiset Entry

/-- What happens in a mart. -/
inductive MartEvent where
  /-- A customer puts an item in the basket. -/
  | put (customer : String) (i : Item)
  /-- A customer buys what is in the basket. -/
  | buy (customer key : String)
  /-- Pieces of an entry are sent. -/
  | send (key : String) (e : Entry) (n : ℕ)
  deriving DecidableEq

namespace MartEvent

variable {M : Type} [AddCommMonoid M]

/-- What a customer puts in the basket, each item weighed. -/
def put? (customer : String) (g : Item → M) : MartEvent → M
  | put c i => if c = customer then g i else 0
  | _ => 0

/-- The pieces sent of an order. -/
def sentOf (key : String) : MartEvent → ℕ
  | send k _ n => if k = key then n else 0
  | _ => 0

end MartEvent

namespace Mart

/-- Nothing in any basket, nothing ordered. -/
def empty : Mart := ⟨fun _ => 0, 0⟩

/-- **One step of a mart.** -/
noncomputable def step (t : Mart) : MartEvent → Option Mart
  | .put customer i =>
    if 0 < i.pieces then
      some { t with basket := Function.update t.basket customer (i ::ₘ t.basket customer) }
    else none
  | .buy customer key =>
    if t.basket customer ≠ 0 ∧ t.orders key = 0 then
      some {
        basket := Function.update t.basket customer 0
        orders := t.orders.update key ((t.basket customer).map (Entry.ofItem customer)) }
    else none
  | .send key e n =>
    if e ∈ t.orders key ∧ n ≤ e.remaining then
      some { t with orders := t.orders.update key (e.send n ::ₘ (t.orders key).erase e) }
    else none

variable {M : Type} [AddCancelCommMonoid M]

/-- The sum of an amount over all that was ordered. -/
noncomputable def ordered (f : Entry → M) (t : Mart) : M :=
  t.orders.sum (fun _ es => (es.map f).sum)

/-- The sum when what was ordered under one key is changed. -/
theorem sum_update (f : Entry → M) (orders : String →₀ Multiset Entry) (key : String)
    (es : Multiset Entry) :
    (orders.update key es).sum (fun _ es => (es.map f).sum) + ((orders key).map f).sum
      = orders.sum (fun _ es => (es.map f).sum) + (es.map f).sum :=
  Finsupp.sum_update_add orders key es (fun _ es => (es.map f).sum)
    (fun _ => by rw [Multiset.map_zero, Multiset.sum_zero])
    (fun _ _ _ => by rw [Multiset.map_add, Multiset.sum_add])

variable {t t' : Mart}

/-- What it is to put an item in a basket. -/
theorem step_put {customer : String} {i : Item} (h : t.step (.put customer i) = some t') :
    { t with basket := Function.update t.basket customer (i ::ₘ t.basket customer) } = t' :=
  Option.some.inj (Option.ite_none_right_eq_some.mp h).2

/-- **What buying does**: the basket is emptied into an order under a free key. -/
theorem step_buy {customer key : String} (h : t.step (.buy customer key) = some t') :
    t.orders key = 0 ∧
      ⟨Function.update t.basket customer 0,
        t.orders.update key ((t.basket customer).map (Entry.ofItem customer))⟩ = t' := by
  obtain ⟨hg, h⟩ := Option.ite_none_right_eq_some.mp h
  exact ⟨hg.2, Option.some.inj h⟩

/-- **What sending does**: pieces that remain of an entry are sent. -/
theorem step_send {key : String} {e : Entry} {n : ℕ} (h : t.step (.send key e n) = some t') :
    e ∈ t.orders key ∧ n ≤ e.remaining ∧
      { t with orders := t.orders.update key (e.send n ::ₘ (t.orders key).erase e) } = t' := by
  obtain ⟨hg, h⟩ := Option.ite_none_right_eq_some.mp h
  exact ⟨hg.1, hg.2, Option.some.inj h⟩

/-- The sum over the entries of an order, one of which is sent some more of. -/
theorem sum_send (f : Entry → M) {es : Multiset Entry} {e : Entry} (he : e ∈ es) (n : ℕ) :
    ((e.send n ::ₘ es.erase e).map f).sum + f e = (es.map f).sum + f (e.send n) := by
  have hold : (es.map f).sum = f e + ((es.erase e).map f).sum := by
    rw [← Multiset.sum_cons, ← Multiset.map_cons, Multiset.cons_erase he]
  rw [hold, Multiset.map_cons, Multiset.sum_cons]
  abel

/-! ## No piece is lost or made -/

/-- **What a customer has**, weighed: what is in the basket, and what was
ordered. -/
noncomputable def held (customer : String) (g : Item → M) (t : Mart) : M :=
  ((t.basket customer).map g).sum + t.ordered (Entry.heldBy customer g)

/-- Items that are ordered weigh for their customer what they did in the
basket. -/
theorem sum_ofItem (customer c : String) (g : Item → M) (items : Multiset Item) :
    ((items.map (Entry.ofItem c)).map (Entry.heldBy customer g)).sum
      = if c = customer then (items.map g).sum else 0 := by
  have hof (i : Item) : Entry.heldBy customer g (Entry.ofItem c i)
      = if c = customer then g i else 0 := by
    show (if c = customer then g ⟨i.productId, 0 + i.pieces⟩ else 0) = _
    rw [Nat.zero_add]
  rw [Multiset.map_map]
  by_cases hc : c = customer
  · rw [if_pos hc]
    exact congrArg Multiset.sum (Multiset.map_congr rfl (fun i _ => (hof i).trans (if_pos hc)))
  · rw [if_neg hc]
    refine Multiset.sum_eq_zero (fun x hx => ?_)
    obtain ⟨i, -, rfl⟩ := Multiset.mem_map.mp hx
    exact (hof i).trans (if_neg hc)

/-- **One step**: a customer has gained what the customer put in the basket. -/
theorem held_step (customer : String) (g : Item → M) {a : MartEvent} (h : t.step a = some t') :
    t'.held customer g = t.held customer g + a.put? customer g := by
  cases a with
  | put c i =>
    rw [← step_put h]
    show (Multiset.map g (Function.update t.basket c (i ::ₘ t.basket c) customer)).sum
        + t.ordered _ = _ + if c = customer then g i else 0
    by_cases hc : c = customer
    · subst hc
      rw [Function.update_self, Multiset.map_cons, Multiset.sum_cons, if_pos rfl, held]
      abel
    · rw [Function.update_of_ne (fun hk => hc hk.symm), if_neg hc, add_zero, held]
  | buy c key =>
    obtain ⟨hkey, ht'⟩ := step_buy h
    have hsum := sum_update (Entry.heldBy customer g) t.orders key
      ((t.basket c).map (Entry.ofItem c))
    rw [hkey, Multiset.map_zero, Multiset.sum_zero, add_zero, sum_ofItem] at hsum
    rw [← ht']
    show (Multiset.map g (Function.update t.basket c 0 customer)).sum
        + ordered (Entry.heldBy customer g) ⟨_, _⟩ = _ + 0
    rw [ordered, hsum, add_zero, held, ordered]
    by_cases hc : c = customer
    · subst hc
      rw [Function.update_self, Multiset.map_zero, Multiset.sum_zero, if_pos rfl, zero_add,
        add_comm]
    · rw [Function.update_of_ne (fun hk => hc hk.symm), if_neg hc, add_zero]
  | send key e n =>
    obtain ⟨he, hn, ht'⟩ := step_send h
    have hentry : Entry.heldBy customer g (e.send n) = Entry.heldBy customer g e := by
      rw [Entry.heldBy, Entry.pieces_send hn]
      rfl
    have hsend := sum_send (Entry.heldBy customer g) he n
    rw [hentry] at hsend
    have hsum := sum_update (Entry.heldBy customer g) t.orders key
      (e.send n ::ₘ (t.orders key).erase e)
    rw [add_right_cancel hsend] at hsum
    rw [← ht']
    show _ + ordered (Entry.heldBy customer g) ⟨_, _⟩ = _ + 0
    rw [ordered, add_right_cancel hsum, add_zero, held, ordered]

/-- **No piece is lost or made.** What a customer has after a run is what the
customer had and what was put in the basket. -/
theorem held_run (customer : String) (g : Item → M) {as : List MartEvent}
    (h : Runs.run step t as = some t') :
    t'.held customer g = t.held customer g + (as.map (MartEvent.put? customer g)).sum :=
  Runs.sum_run (w := MartEvent.put? customer g) (fun _ _ _ => held_step customer g) h

/-! ## What is sent is what has been sent -/

/-- The pieces sent of what was ordered under a key. -/
def sentUnder (key : String) (t : Mart) : ℕ := ((t.orders key).map Entry.sent).sum

/-- One step sends what it sends. -/
theorem sentUnder_step (key : String) {a : MartEvent} (h : t.step a = some t') :
    t'.sentUnder key = t.sentUnder key + a.sentOf key := by
  cases a with
  | put c i =>
    rw [← step_put h]
    rfl
  | buy c k =>
    obtain ⟨hkey, ht'⟩ := step_buy h
    rw [← ht']
    show ((t.orders.update k _ key).map Entry.sent).sum = t.sentUnder key + 0
    rw [add_zero, Finsupp.update_apply, sentUnder]
    by_cases hk : key = k
    · subst hk
      rw [if_pos rfl, hkey, Multiset.map_map, Multiset.map_zero, Multiset.sum_zero]
      exact Multiset.sum_eq_zero (fun x hx => by
        obtain ⟨i, -, rfl⟩ := Multiset.mem_map.mp hx
        rfl)
    · rw [if_neg hk]
  | send k e n =>
    obtain ⟨he, -, ht'⟩ := step_send h
    rw [← ht']
    show ((t.orders.update k _ key).map Entry.sent).sum
      = t.sentUnder key + if k = key then n else 0
    rw [Finsupp.update_apply, sentUnder]
    by_cases hk : key = k
    · subst hk
      have hsend : _ = _ + (e.sent + n) := sum_send Entry.sent he n
      rw [if_pos rfl, if_pos rfl]
      omega
    · rw [if_neg hk, if_neg (fun h => hk h.symm), add_zero]

/-- **What has been sent of an order** is what the run sent of it. -/
theorem sentUnder_run (key : String) {as : List MartEvent} (h : Runs.run step t as = some t') :
    t'.sentUnder key = t.sentUnder key + (as.map (MartEvent.sentOf key)).sum :=
  Runs.sum_run (w := MartEvent.sentOf key) (fun _ _ _ => sentUnder_step key) h

/-! ## What is ordered was put in a basket -/

/-- Every item is one with a property, in a basket or ordered. -/
structure Each (P : Item → Prop) (t : Mart) : Prop where
  basket : ∀ c, ∀ i ∈ t.basket c, P i
  orders : ∀ key, ∀ e ∈ t.orders key, P ⟨e.productId, e.pieces⟩

/-- What is in a basket after one of them is changed. -/
theorem mem_basket_update {basket : String → Multiset Item} {c c' : String} {is : Multiset Item}
    {i : Item} (h : i ∈ Function.update basket c is c') : i ∈ is ∨ i ∈ basket c' := by
  by_cases hc : c' = c
  · subst hc
    rw [Function.update_self] at h
    exact Or.inl h
  · rw [Function.update_of_ne hc] at h
    exact Or.inr h

/-- What is ordered after one of the orders is changed. -/
theorem mem_orders_update {orders : String →₀ Multiset Entry} {key key' : String}
    {es : Multiset Entry} {e : Entry} (h : e ∈ orders.update key es key') :
    e ∈ es ∨ e ∈ orders key' := by
  rw [Finsupp.update_apply] at h
  split at h
  · exact Or.inl h
  · exact Or.inr h

/-- One step brings in what is put in a basket. -/
theorem Each.step {P : Item → Prop} (ht : t.Each P) {a : MartEvent}
    (ha : ∀ c i, a = .put c i → P i) (h : t.step a = some t') : t'.Each P := by
  cases a with
  | put c i =>
    rw [← step_put h]
    refine ⟨fun c' i' hi' => ?_, ht.orders⟩
    rcases mem_basket_update hi' with hi' | hi'
    · rcases Multiset.mem_cons.mp hi' with rfl | hi'
      · exact ha c i' rfl
      · exact ht.basket c i' hi'
    · exact ht.basket c' i' hi'
  | buy c key =>
    obtain ⟨-, ht'⟩ := step_buy h
    rw [← ht']
    constructor
    · intro c' i' hi'
      rcases mem_basket_update hi' with hi' | hi'
      · exact absurd hi' (Multiset.notMem_zero i')
      · exact ht.basket c' i' hi'
    · intro key' e' he'
      rcases mem_orders_update he' with he' | he'
      · obtain ⟨i, hi, rfl⟩ := Multiset.mem_map.mp he'
        show P ⟨i.productId, 0 + i.pieces⟩
        rw [Nat.zero_add]
        exact ht.basket c i hi
      · exact ht.orders key' e' he'
  | send key e n =>
    obtain ⟨he, hn, ht'⟩ := step_send h
    rw [← ht']
    refine ⟨ht.basket, fun key' e' he' => ?_⟩
    rcases mem_orders_update he' with he' | he'
    · rcases Multiset.mem_cons.mp he' with rfl | he'
      · rw [Entry.pieces_send hn]
        exact ht.orders key e he
      · exact ht.orders key e' (Multiset.mem_of_mem_erase he')
    · exact ht.orders key' e' he'

/-- **What a run puts in the baskets** is all there is after it. -/
theorem each_run {P : Item → Prop} {as : List MartEvent}
    (has : ∀ a ∈ as, ∀ c i, a = .put c i → P i) (h : Runs.run step empty as = some t) :
    t.Each P := by
  have hempty : empty.Each P :=
    ⟨fun _ i hi => absurd hi (Multiset.notMem_zero i),
      fun _ e he => absurd he (Multiset.notMem_zero e)⟩
  have hmeets : Runs.Meets step (fun _ a => ∀ c i, a = .put c i → P i) empty as :=
    Runs.meets_of_forall empty has
  exact (Runs.along_of_meets (fun _ _ _ ht ha => Each.step ht ha) hempty hmeets).last h

/-! ## What has been ordered is sent once -/

/-- The pieces that were ordered under a key and have not been sent. -/
def remainingUnder (key : String) (t : Mart) : ℕ := ((t.orders key).map Entry.remaining).sum

/-- **One step**: what it sends of an order remains no more. -/
theorem remainingUnder_step {key : String} (hkey : t.orders key ≠ 0) {a : MartEvent}
    (h : t.step a = some t') :
    t'.orders key ≠ 0 ∧ t'.remainingUnder key + a.sentOf key = t.remainingUnder key := by
  cases a with
  | put c i =>
    rw [← step_put h]
    exact ⟨hkey, rfl⟩
  | buy c k =>
    obtain ⟨hfree, ht'⟩ := step_buy h
    have hk : key ≠ k := fun hk => hkey (hk ▸ hfree)
    have horders : t'.orders key = t.orders key := by
      rw [← ht']
      exact (Finsupp.update_apply ..).trans (if_neg hk)
    rw [remainingUnder, horders]
    exact ⟨hkey, rfl⟩
  | send k e n =>
    obtain ⟨he, hn, ht'⟩ := step_send h
    rw [← ht', remainingUnder]
    show t.orders.update k _ key ≠ 0
      ∧ ((t.orders.update k _ key).map Entry.remaining).sum + (if k = key then n else 0) = _
    rw [Finsupp.update_apply]
    by_cases hk : key = k
    · subst hk
      have hsend : _ + e.remaining = _ + (e.remaining - n) := sum_send Entry.remaining he n
      rw [if_pos rfl, if_pos rfl, remainingUnder]
      exact ⟨Multiset.cons_ne_zero, by omega⟩
    · rw [if_neg hk, if_neg (fun h => hk h.symm)]
      exact ⟨hkey, rfl⟩

/-- **What has been ordered is sent once**: a run sends what remains no more. -/
theorem remainingUnder_run {key : String} (hkey : t.orders key ≠ 0) {as : List MartEvent}
    (h : Runs.run step t as = some t') :
    t'.remainingUnder key + (as.map (MartEvent.sentOf key)).sum = t.remainingUnder key := by
  induction as generalizing t with
  | nil =>
    obtain rfl := Option.some.inj h
    rfl
  | cons a as ih =>
    obtain ⟨t₁, ht₁, h⟩ := (Runs.run_cons_eq_some step).mp h
    obtain ⟨hkey₁, hstep⟩ := remainingUnder_step hkey ht₁
    rw [List.map_cons, List.sum_cons, ← hstep, ← ih hkey₁ h]
    omega

end Mart
