import Enmart.Base.Runs
import Enmart.Cart.Provider

/-!
# Checkout when a request fails

Checkout writes the order, empties the list on the device and deletes the
cart document: two requests, and no transaction around them. Either may
fail, and the app may be restarted at any moment, in which case the list is
read from the document again.

Nothing is ever lost that way. What a checkout orders is all there is in the
document, so the document is only deleted when its lines are in an order. But
if the order is written and the document is not deleted – the deletion fails,
or the app stops before it is made – the next restart brings the same lines
back to the device, and buying them again puts them in a second order, unless
it is placed in the same millisecond and replaces the first.
`checkout_once_iff` says that this is the only way: a line is in two orders
exactly when an order that landed is followed by a restart with its document
not deleted, and then by a purchase under another key.
-/

open Firestore SetArray

/-- **A customer's cart and the orders**: the cart document, the list on the
device, and whether the deletion of the document is still to be made. -/
structure CartState where
  cart : Option Fields
  products : List OrderModel
  orders : Collection
  clearing : Bool

/-- What happens next. -/
inductive CartAction where
  /-- The customer buys what is on the device, at some moment; the order's
  write fails or does not. -/
  | buy (uid : String) (dt : DateTime) (ok : Bool)
  /-- The cart document is deleted, or the deletion fails. -/
  | clear (ok : Bool)
  /-- The app is restarted. -/
  | restart
  deriving DecidableEq, Repr

/-- The key of an order placed at some moment. -/
def orderKey (dt : DateTime) : String := toString dt.millisecondsSinceEpoch

/-- **One step.** `cartToOrder` is offered on a list that is not empty. Once
its write has landed it empties the list and goes on to the deletion; if the
write fails it stops there. A restarted app has an empty list and reads the
document. -/
def cartStep (s : CartState) : CartAction → Option CartState
  | .buy uid dt ok =>
    if s.clearing = false ∧ s.products ≠ [] then
      if ok then
        some { s with
          products := []
          orders := s.orders.set (orderKey dt)
            (cartToOrder uid dt s.products).toMap.values
          clearing := true }
      -- the exception leaves the list as it was
      else some s
    else none
  | .clear ok =>
    if s.clearing = true then
      some { s with cart := if ok then none else s.cart, clearing := false }
    else none
  | .restart =>
    (initializeCart [] s.cart).map (fun products =>
      { s with products := products, clearing := false })

/-- An order of the collection holds a line. -/
def LineIn (orders : Collection) (k : String) (l : OrderModel) : Prop :=
  ∃ doc m, orders k = some doc ∧ OrderCartModel.fromMap doc = some m ∧ l ∈ m.items

/-- **No line is in two orders, and one in none is in the cart document.** -/
structure ExactlyOnce (lines : List OrderModel) (s : CartState) : Prop where
  once : ∀ l ∈ lines, ∀ k k', LineIn s.orders k l → LineIn s.orders k' l → k = k'
  kept : ∀ l ∈ lines, (∃ k, LineIn s.orders k l)
    ∨ ∃ items, s.cart.bind cartItems = some items ∧ l ∈ items

/-- **A cart left behind**: an order placed at `dt` landed, the app has been
restarted since, and the cart document was not deleted in between. -/
def LeftBehind (past : List CartAction) (dt : DateTime) : Prop :=
  ∃ before uid between, past = before ++ .buy uid dt true :: between
    ∧ .restart ∈ between ∧ .clear true ∉ between

/-- **Nothing bought again**: a purchase whose order lands does not follow,
under another key, one that left its cart behind. -/
def NotBoughtAgain (past : List (CartState × CartAction)) (_ : CartState) :
    CartAction → Prop
  | .buy _ dt true => ∀ dt', LeftBehind (past.map Prod.snd) dt' →
      orderKey dt = orderKey dt'
  | .buy _ _ false => True
  | .clear _ => True
  | .restart => True

/-- A customer with lines in the cart, on the device and in the document. -/
def CartState.start (lines : List OrderModel) (orders : Collection) : CartState where
  cart := some (cartDoc lines)
  products := lines
  orders := orders
  clearing := false

/-- An order placed at `dt` landed. -/
def Landed (past : List CartAction) (dt : DateTime) : Prop :=
  ∃ uid, .buy uid dt true ∈ past

/-- The state between the steps. What is on the device is all of the cart or
nothing, and so is what is in the document. The orders that landed hold all
the lines, under one key, and no other order holds one; and lines that are on
the device after an order landed were left behind by it. -/
structure CartKept (lines : List OrderModel) (past : List CartAction) (s : CartState) :
    Prop where
  products : s.products = lines ∨ s.products = []
  cart : s.cart = some (cartDoc lines) ∨ s.cart = none
  emptied : s.cart = none ∨ s.clearing = true → s.products = []
  placed : s.cart = none ∨ s.clearing = true → ∃ dt, Landed past dt
  uncleared : s.cart ≠ none → .clear true ∉ past
  held : ∀ dt, Landed past dt → ∀ l ∈ lines, LineIn s.orders (orderKey dt) l
  only : ∀ l ∈ lines, ∀ k, LineIn s.orders k l → ∃ dt, Landed past dt ∧ k = orderKey dt
  same : ∀ dt dt', Landed past dt → Landed past dt' → orderKey dt = orderKey dt'
  left : s.products ≠ [] → ∀ dt, Landed past dt → LeftBehind past dt

section Past

variable {past : List CartAction} {a : CartAction} {dt : DateTime}

/-- What has landed after one more step is what had, or what the step made
land. -/
theorem landed_append : Landed (past ++ [a]) dt
    ↔ Landed past dt ∨ ∃ uid, a = .buy uid dt true := by
  unfold Landed
  simp only [List.mem_append, List.mem_singleton, exists_or, eq_comm]

/-- A step that makes no order land leaves those that have. -/
theorem landed_append_of_ne (ha : ∀ uid, a ≠ .buy uid dt true) :
    Landed (past ++ [a]) dt ↔ Landed past dt := by
  rw [landed_append]
  exact or_iff_left (fun ⟨uid, h⟩ => ha uid h)

/-- A cart left behind stays so until its document is deleted. -/
theorem LeftBehind.append (h : LeftBehind past dt) (ha : a ≠ .clear true) :
    LeftBehind (past ++ [a]) dt := by
  obtain ⟨before, uid, between, rfl, hrestart, hclear⟩ := h
  refine ⟨before, uid, between ++ [a], by simp, List.mem_append_left [a] hrestart, ?_⟩
  rw [List.mem_append, List.mem_singleton]
  exact not_or.mpr ⟨hclear, ha.symm⟩

/-- **A restart leaves behind** every order that landed, where no deletion
has been made. -/
theorem Landed.leftBehind (h : Landed past dt) (hclear : .clear true ∉ past) :
    LeftBehind (past ++ [.restart]) dt := by
  obtain ⟨uid, hmem⟩ := h
  obtain ⟨before, between, rfl⟩ := List.append_of_mem hmem
  refine ⟨before, uid, between ++ [.restart], by simp, by simp, ?_⟩
  intro hin
  rcases List.mem_append.mp hin with hin | hin
  · exact hclear (by simp [hin])
  · exact absurd (List.mem_singleton.mp hin) (by simp)

end Past

section Placed

variable {s : CartState} {uid : String} {dt : DateTime} {l : OrderModel} {k : String}

/-- The order placed, as the collection then has it. -/
theorem orders_buy_self (orders : Collection) (products : List OrderModel) :
    orders.set (orderKey dt) (cartToOrder uid dt products).toMap.values (orderKey dt)
      = some (cartToOrder uid dt products).toMap := by
  rw [Collection.set_self, Fields.ofUpdate_values (OrderCartModel.toMap_sorted _)]

/-- **A line bought is in the order placed.** -/
theorem lineIn_buy (orders : Collection) {products : List OrderModel}
    (hl : l ∈ products) :
    LineIn (orders.set (orderKey dt) (cartToOrder uid dt products).toMap.values)
      (orderKey dt) l :=
  ⟨_, _, orders_buy_self orders products, OrderCartModel.fromMap_toMap _, hl⟩

/-- Under another key the orders are as they were. -/
theorem lineIn_buy_of_ne {orders : Collection} {us : Update} (hk : k ≠ orderKey dt) :
    LineIn (orders.set (orderKey dt) us) k l ↔ LineIn orders k l := by
  unfold LineIn
  rw [Collection.set_of_ne us hk]

end Placed

namespace CartKept

variable {lines : List OrderModel} {past : List CartAction} {s s' : CartState}

/-- Between the steps every line is where it should be. -/
theorem exactlyOnce (h : CartKept lines past s) : ExactlyOnce lines s := by
  refine ⟨fun l hl k k' hk hk' => ?_, fun l hl => ?_⟩
  · obtain ⟨dt, hdt, rfl⟩ := h.only l hl k hk
    obtain ⟨dt', hdt', rfl⟩ := h.only l hl k' hk'
    exact h.same dt dt' hdt hdt'
  · rcases h.cart with hc | hc
    · refine Or.inr ⟨lines, ?_, hl⟩
      rw [hc]
      exact cartItems_cartDoc lines
    · obtain ⟨dt, hdt⟩ := h.placed (Or.inl hc)
      exact Or.inl ⟨orderKey dt, h.held dt hdt l hl⟩

/-- A cart none of which is in an order yet. -/
theorem start {orders : Collection} (hnew : ∀ l ∈ lines, ∀ k, ¬ LineIn orders k l) :
    CartKept lines [] (CartState.start lines orders) where
  products := Or.inl rfl
  cart := Or.inl rfl
  emptied := fun h => absurd h (by simp [CartState.start])
  placed := fun h => absurd h (by simp [CartState.start])
  uncleared := fun _ => List.not_mem_nil
  held := fun _ ⟨_, h⟩ => absurd h List.not_mem_nil
  only := fun l hl k hk => absurd hk (hnew l hl k)
  same := fun _ _ ⟨_, h⟩ => absurd h List.not_mem_nil
  left := fun _ _ ⟨_, h⟩ => absurd h List.not_mem_nil

/-- **A purchase that does not buy again what was left behind.** All lines
are in the order that lands, and in no other. -/
theorem buy {uid : String} {dt : DateTime} (h : CartKept lines past s)
    (hne : s.products ≠ [])
    (hC : ∀ dt', LeftBehind past dt' → orderKey dt = orderKey dt') :
    CartKept lines (past ++ [.buy uid dt true])
      { s with
        products := []
        orders := s.orders.set (orderKey dt) (cartToOrder uid dt s.products).toMap.values
        clearing := true } := by
  have hall : s.products = lines := h.products.resolve_right hne
  have hkey : ∀ dt', Landed (past ++ [.buy uid dt true]) dt' → orderKey dt = orderKey dt' := by
    intro dt' hdt'
    rcases landed_append.mp hdt' with hold | ⟨_, hnew⟩
    · exact hC dt' (h.left hne dt' hold)
    · rw [(CartAction.buy.inj hnew).2.1]
  have hlanded : Landed (past ++ [.buy uid dt true]) dt := landed_append.mpr (Or.inr ⟨uid, rfl⟩)
  refine ⟨Or.inr rfl, h.cart, fun _ => rfl, fun _ => ⟨dt, hlanded⟩, fun hc => ?_,
    fun dt' hdt' l hl => ?_, fun l hl k hk => ?_, fun dt₁ dt₂ h₁ h₂ => ?_,
    fun hf => absurd rfl hf⟩
  · simp [h.uncleared hc]
  · rw [← hkey dt' hdt']
    exact lineIn_buy s.orders (by rw [hall]; exact hl)
  · by_cases hk' : k = orderKey dt
    · exact ⟨dt, hlanded, hk'⟩
    · obtain ⟨dt', hdt', rfl⟩ := h.only l hl k ((lineIn_buy_of_ne hk').mp hk)
      exact ⟨dt', landed_append.mpr (Or.inl hdt'), rfl⟩
  · rw [← hkey dt₁ h₁, hkey dt₂ h₂]

/-- **A step that makes no order land** and leaves the orders as they are: what
has to be said of it is what becomes of the cart. -/
theorem of_unlanded {a : CartAction} (h : CartKept lines past s)
    (ha : ∀ uid dt, a ≠ .buy uid dt true) (horders : s'.orders = s.orders)
    (hproducts : s'.products = lines ∨ s'.products = [])
    (hcart : s'.cart = some (cartDoc lines) ∨ s'.cart = none)
    (hdone : s'.cart = none ∨ s'.clearing = true →
      s'.products = [] ∧ (s.cart = none ∨ s.clearing = true))
    (huncleared : s'.cart ≠ none → s.cart ≠ none ∧ a ≠ .clear true)
    (hleft : s'.products ≠ [] → ∀ dt, Landed past dt → LeftBehind (past ++ [a]) dt) :
    CartKept lines (past ++ [a]) s' := by
  have hold : ∀ dt, Landed (past ++ [a]) dt ↔ Landed past dt :=
    fun dt => landed_append_of_ne (fun uid => ha uid dt)
  refine ⟨hproducts, hcart, fun hc => (hdone hc).1, fun hc => ?_, fun hc hmem => ?_,
    fun dt hdt => ?_, fun l hl k hk => ?_, fun dt dt' hdt hdt' => ?_, fun hne dt hdt => ?_⟩
  · obtain ⟨dt, hdt⟩ := h.placed (hdone hc).2
    exact ⟨dt, (hold dt).mpr hdt⟩
  · obtain ⟨hsome, hne⟩ := huncleared hc
    rcases List.mem_append.mp hmem with hmem | hmem
    · exact h.uncleared hsome hmem
    · exact hne (List.mem_singleton.mp hmem).symm
  · rw [horders]
    exact h.held dt ((hold dt).mp hdt)
  · rw [horders] at hk
    obtain ⟨dt, hdt, rfl⟩ := h.only l hl k hk
    exact ⟨dt, (hold dt).mpr hdt, rfl⟩
  · exact h.same dt dt' ((hold dt).mp hdt) ((hold dt').mp hdt')
  · exact hleft hne dt ((hold dt).mp hdt)

/-- **A deletion**, made or failed: the list on the device is empty, and the
orders are as they were. -/
theorem clear {ok : Bool} (h : CartKept lines past s) (hclearing : s.clearing = true) :
    CartKept lines (past ++ [.clear ok])
      { s with cart := if ok then none else s.cart, clearing := false } := by
  have hempty : s.products = [] := h.emptied (Or.inr hclearing)
  refine h.of_unlanded (fun _ _ => by simp) rfl h.products ?_
    (fun _ => ⟨hempty, Or.inr hclearing⟩) (fun hc => ?_) (fun hne => absurd hempty hne)
  · cases ok with
    | true => exact Or.inr rfl
    | false => exact h.cart
  · cases ok with
    | true => exact absurd rfl hc
    | false => exact ⟨hc, by simp⟩

/-- **A restart** brings back what the document holds; if an order landed
before, its document was not deleted. -/
theorem restart {products : List OrderModel} (h : CartKept lines past s)
    (hread : initializeCart [] s.cart = some products) :
    CartKept lines (past ++ [.restart]) { s with products := products, clearing := false } := by
  have hproducts : (s.cart ≠ none ∧ products = lines) ∨ (s.cart = none ∧ products = []) := by
    rcases h.cart with hc | hc
    · rw [hc] at hread
      have hlines : cartItems (cartDoc lines) = some products := hread
      rw [cartItems_cartDoc] at hlines
      exact Or.inl ⟨by simp [hc], (Option.some.inj hlines).symm⟩
    · rw [hc] at hread
      exact Or.inr ⟨hc, (Option.some.inj hread).symm⟩
  refine h.of_unlanded (fun _ _ => by simp) rfl (hproducts.imp And.right And.right) h.cart
    (fun hc => ?_) (fun hc => ⟨hc, by simp⟩) (fun hne dt hdt => ?_)
  · -- the app is not deleting, so there is no document
    have hnone : s.cart = none := hc.resolve_right (by simp)
    rcases hproducts with ⟨hsome, -⟩ | ⟨-, hnil⟩
    · exact absurd hnone hsome
    · exact ⟨hnil, Or.inl hnone⟩
  · rcases hproducts with ⟨hsome, -⟩ | ⟨-, hnil⟩
    · exact hdt.leftBehind (h.uncleared hsome)
    · exact absurd hnil hne

/-- A purchase whose order does not land changes nothing. -/
theorem buy_failed {uid : String} {dt : DateTime} (h : CartKept lines past s) :
    CartKept lines (past ++ [.buy uid dt false]) s :=
  h.of_unlanded (fun _ _ => by simp) rfl h.products h.cart (fun hc => ⟨h.emptied hc, hc⟩)
    (fun hc => ⟨hc, by simp⟩) (fun hne dt hdt => (h.left hne dt hdt).append (by simp))

end CartKept

/-- **What a step does**, and when it is taken. -/
theorem cartStep_cases {s s' : CartState} {a : CartAction} (h : cartStep s a = some s') :
    (∃ uid dt, a = .buy uid dt true ∧ s.products ≠ [] ∧ s' = { s with
        products := []
        orders := s.orders.set (orderKey dt) (cartToOrder uid dt s.products).toMap.values
        clearing := true })
      ∨ (∃ uid dt, a = .buy uid dt false ∧ s' = s)
      ∨ (∃ ok, a = .clear ok ∧ s.clearing = true ∧
        s' = { s with cart := if ok then none else s.cart, clearing := false })
      ∨ (∃ products, a = .restart ∧ initializeCart [] s.cart = some products ∧
        s' = { s with products := products, clearing := false }) := by
  cases a with
  | buy uid dt ok =>
    by_cases hguard : s.clearing = false ∧ s.products ≠ []
    · rw [cartStep, if_pos hguard] at h
      cases ok with
      | true => exact Or.inl ⟨uid, dt, rfl, hguard.2, (Option.some.inj h).symm⟩
      | false => exact Or.inr (Or.inl ⟨uid, dt, rfl, (Option.some.inj h).symm⟩)
    · rw [cartStep, if_neg hguard] at h
      exact absurd h (by simp)
  | clear ok =>
    by_cases hguard : s.clearing = true
    · rw [cartStep, if_pos hguard] at h
      exact Or.inr (Or.inr (Or.inl ⟨ok, rfl, hguard, (Option.some.inj h).symm⟩))
    · rw [cartStep, if_neg hguard] at h
      exact absurd h (by simp)
  | restart =>
    obtain ⟨products, hread, rfl⟩ := Option.map_eq_some_iff.mp h
    exact Or.inr (Or.inr (Or.inr ⟨products, rfl, hread, rfl⟩))

namespace CartKept

variable {lines : List OrderModel} {past : List (CartState × CartAction)}
  {s s' : CartState} {a : CartAction}

/-- **A step that buys nothing again keeps every line where it should be.** -/
theorem step (h : CartKept lines (past.map Prod.snd) s) (hC : NotBoughtAgain past s a)
    (hstep : cartStep s a = some s') :
    CartKept lines ((past ++ [(s, a)]).map Prod.snd) s' := by
  rw [List.map_append]
  rcases cartStep_cases hstep with ⟨uid, dt, rfl, hne, rfl⟩ | ⟨uid, dt, rfl, rfl⟩
    | ⟨ok, rfl, hclearing, rfl⟩ | ⟨products, rfl, hread, rfl⟩
  · exact h.buy hne hC
  · exact h.buy_failed
  · exact h.clear hclearing
  · exact h.restart hread

/-- **Buying again what was left behind** puts the lines in two orders. -/
theorem not_exactlyOnce (h : CartKept lines (past.map Prod.snd) s)
    (hC : ¬ NotBoughtAgain past s a) (hstep : cartStep s a = some s') :
    ¬ ExactlyOnce lines s' := by
  intro hlaw
  rcases cartStep_cases hstep with ⟨uid, dt, rfl, hne, rfl⟩ | ⟨uid, dt, rfl, -⟩
    | ⟨ok, rfl, -, -⟩ | ⟨products, rfl, -, -⟩
  · have hall : s.products = lines := h.products.resolve_right hne
    obtain ⟨l, ls, hl⟩ := List.exists_cons_of_ne_nil hne
    have hmem : l ∈ lines := by rw [← hall, hl]; exact List.mem_cons_self ..
    refine hC (fun dt' hleft => ?_)
    by_contra hkey
    obtain ⟨before, uid', between, hpast, -, -⟩ := hleft
    have hlanded : Landed (past.map Prod.snd) dt' := ⟨uid', by rw [hpast]; simp⟩
    -- the line is in the order that landed before, and in the new one
    exact hkey (hlaw.once l hmem (orderKey dt) (orderKey dt')
      (lineIn_buy s.orders (by rw [hall]; exact hmem))
      ((lineIn_buy_of_ne (Ne.symm hkey)).mpr (h.held dt' hlanded l hmem)))
  · exact hC trivial
  · exact hC trivial
  · exact hC trivial

end CartKept

/-- **When checkout is exactly-once.** Of a cart of any content, none of it
in an order yet, in any run of checkouts, deletions and restarts in which any
request may fail, every line is in at most one order and in the cart document
while it is in none – exactly when no order lands under another key than an
earlier one whose document was not deleted before the app was restarted. -/
theorem checkout_once_iff (lines : List OrderModel) (orders : Collection)
    (hnew : ∀ l ∈ lines, ∀ k, ¬ LineIn orders k l) (as : List CartAction) :
    Runs.Along cartStep (ExactlyOnce lines) (CartState.start lines orders) as
      ↔ Runs.MeetsAfter cartStep NotBoughtAgain [] (CartState.start lines orders) as :=
  Runs.along_iff_meetsAfter (I := fun past s => CartKept lines (past.map Prod.snd) s)
    (fun _ _ h => h.exactlyOnce) (fun _ _ _ _ h hC hstep => h.step hC hstep)
    (fun _ _ _ _ h hC hstep => h.not_exactlyOnce hC hstep) (CartKept.start hnew)

/-- The law at work: a checkout whose first request fails, made again, and
its deletion cut off by a restart. -/
theorem checkout_once_iff_retry :
    Runs.Along cartStep (ExactlyOnce [cartLine "1" 1, cartLine "2" 3])
        (CartState.start [cartLine "1" 1, cartLine "2" 3] (fun _ => none))
        [.buy "u" ⟨2000⟩ false, .buy "u" ⟨3000⟩ true, .restart, .buy "u" ⟨4000⟩ false]
      ↔ Runs.MeetsAfter cartStep NotBoughtAgain []
          (CartState.start [cartLine "1" 1, cartLine "2" 3] (fun _ => none))
          [.buy "u" ⟨2000⟩ false, .buy "u" ⟨3000⟩ true, .restart, .buy "u" ⟨4000⟩ false] :=
  checkout_once_iff [cartLine "1" 1, cartLine "2" 3] (fun _ => none)
    (fun _ _ _ ⟨_, _, hdoc, _⟩ => absurd hdoc.symm (Option.some_ne_none _))
    [.buy "u" ⟨2000⟩ false, .buy "u" ⟨3000⟩ true, .restart, .buy "u" ⟨4000⟩ false]

/-- **Bought twice**: the order is written, the deletion fails, and the app is
restarted. The line is back in the cart, and buying it puts it in a second
order. -/
theorem bought_twice :
    ¬ ∀ (lines : List OrderModel) (orders : Collection) (as : List CartAction),
      (∀ l ∈ lines, ∀ k, ¬ LineIn orders k l) →
      Runs.Along cartStep (ExactlyOnce lines) (CartState.start lines orders) as := by
  intro h
  have hlaw := h [cartLine "1" 1] (fun _ => none)
    [.buy "u" ⟨2000⟩ true, .clear false, .restart, .buy "u" ⟨3000⟩ true]
    (fun _ _ _ ⟨_, _, hdoc, _⟩ => nomatch hdoc)
  have honce := (hlaw.last rfl).once (cartLine "1" 1) (by decide) "2" "3"
  refine absurd (honce ⟨(cartToOrder "u" ⟨2000⟩ [cartLine "1" 1]).toMap, _, ?_,
      OrderCartModel.fromMap_toMap _, by decide⟩
    ⟨(cartToOrder "u" ⟨3000⟩ [cartLine "1" 1]).toMap, _, ?_,
      OrderCartModel.fromMap_toMap _, by decide⟩) (by decide)
  · decide +kernel
  · decide +kernel
