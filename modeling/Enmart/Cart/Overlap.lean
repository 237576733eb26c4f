import Enmart.Base.Runs
import Enmart.Cart.Provider

/-!
# Adding to the cart while checking out

`addToCart` writes the line to the cart document first and adds it to the
list on the device when the write is answered; where there is no document yet
the answer is *not found*, and it puts a new one. Nobody waits for it.
Checkout copies the list, waits for the order to be written, empties the list
and deletes the document. The device's writes are applied in the order they
were issued, and each answer is taken up at some later moment.

Every line given to `addToCart` is then in one of four places: in a write
that waits, in an answer *not found* that waits, in the cart document, or in
the order – provided that while checkout has taken the list no line reaches
the document (`LinesKept`). A line that does is deleted with the document; if
it reached the list after it was emptied it is still shown, and if it did
before it is gone. A line is also lost from the document when two of them
find none and the second puts its own over the first's.
-/

open Firestore SetArray

/-! ## The device -/

/-- A write the device has issued. -/
inductive Request where
  /-- `addToCart` adds its line to the cart document. -/
  | update (order : OrderModel)
  /-- `addToCart` puts a new cart document with its line. -/
  | set (order : OrderModel)
  /-- `cartToOrder` puts the order. -/
  | placeOrder (m : OrderCartModel)
  /-- `clearCart` deletes the cart document. -/
  | delete
  deriving DecidableEq, Repr

namespace Request

/-- The line on its way to the cart document. -/
def line? : Request → Option OrderModel
  | update l => some l
  | set l => some l
  | _ => none

/-- The write, if it is one of checkout's. -/
def checkout? : Request → Option Request
  | placeOrder m => some (placeOrder m)
  | delete => some delete
  | _ => none

end Request

/-- How far checkout is. -/
inductive Checkout where
  | idle
  /-- The list has been copied to an order, whose write is not answered. -/
  | ordering (m : OrderCartModel)
  /-- The order is written. -/
  | ordered
  /-- The list is empty, and the deletion is not answered. -/
  | clearing
  | finished
  deriving DecidableEq, Repr

namespace Checkout

/-- The write checkout waits for. -/
def pending : Checkout → List Request
  | ordering m => [.placeOrder m]
  | clearing => [.delete]
  | _ => []

/-- Whether checkout has copied the list and the document is still there. -/
def taken : Checkout → Bool
  | idle => false
  | finished => false
  | _ => true

/-- Whether the lines of the document are in the order. -/
def paid : Checkout → Bool
  | ordered => true
  | clearing => true
  | _ => false

/-- Checkout waits for an order while it is ordering, and for nothing
else. -/
theorem eq_ordering_of_pending {c : Checkout} {m : OrderCartModel} {rs : List Request}
    (h : c.pending = .placeOrder m :: rs) : c = .ordering m ∧ rs = [] := by
  cases c with
  | ordering m' =>
    obtain ⟨hm, hrs⟩ := List.cons.inj h
    rw [Request.placeOrder.inj hm]
    exact ⟨rfl, hrs.symm⟩
  | clearing => exact absurd (List.cons.inj h).1 (by simp)
  | idle => exact absurd h.symm (List.cons_ne_nil _ _)
  | ordered => exact absurd h.symm (List.cons_ne_nil _ _)
  | finished => exact absurd h.symm (List.cons_ne_nil _ _)

/-- Checkout waits for a deletion while it is clearing, and for nothing
else. -/
theorem eq_clearing_of_pending {c : Checkout} {rs : List Request}
    (h : c.pending = .delete :: rs) : c = .clearing ∧ rs = [] := by
  cases c with
  | clearing => exact ⟨rfl, (List.cons.inj h).2.symm⟩
  | ordering m => exact absurd (List.cons.inj h).1 (by simp)
  | idle => exact absurd h.symm (List.cons_ne_nil _ _)
  | ordered => exact absurd h.symm (List.cons_ne_nil _ _)
  | finished => exact absurd h.symm (List.cons_ne_nil _ _)

end Checkout

/-- **One device and its user's documents.** -/
structure Device where
  /-- The lines given to `addToCart`. -/
  given : List OrderModel
  /-- The cart document. -/
  cart : Option Fields
  /-- The order document. -/
  order : Option Fields
  /-- The list on the device. -/
  products : List OrderModel
  /-- The writes issued and not yet applied, in order. -/
  queue : List Request
  /-- The answers `addToCart` has not taken up: the line, and whether the
  cart document was found. -/
  replies : List (OrderModel × Bool)
  checkout : Checkout
  deriving DecidableEq

/-- What happens next. -/
inductive DeviceAction where
  /-- `addToCart` is called. -/
  | addToCart (order : OrderModel)
  /-- `cartToOrder` copies the list and issues the order. -/
  | buy (uid : String) (dt : DateTime)
  /-- The first of the writes issued is applied. -/
  | apply
  /-- A call of `addToCart` takes up its answer. -/
  | resumeAdd (i : ℕ)
  /-- `cartToOrder` takes up its answer and calls `clearCart`. -/
  | resumeBuy
  deriving DecidableEq, Repr

/-- **One step of the device.** -/
def deviceStep (s : Device) : DeviceAction → Option Device
  | .addToCart l =>
    some { s with given := s.given ++ [l], queue := s.queue ++ [.update l] }
  | .buy uid dt =>
    if s.checkout = .idle ∧ s.products ≠ [] then
      some { s with
        queue := s.queue ++ [.placeOrder (cartToOrder uid dt s.products)]
        checkout := .ordering (cartToOrder uid dt s.products) }
    else none
  | .apply =>
    match s.queue with
    | [] => none
    | .update l :: queue =>
      match s.cart with
      | some doc =>
        some { s with
          cart := some (Fields.patch doc (addToCartWrite l))
          queue := queue
          replies := s.replies ++ [(l, true)] }
      -- not found: nothing is written yet
      | none => some { s with queue := queue, replies := s.replies ++ [(l, false)] }
    | .set l :: queue =>
      some { s with
        cart := some (Fields.ofUpdate (addToCartWrite l))
        queue := queue
        replies := s.replies ++ [(l, true)] }
    | .placeOrder m :: queue =>
      some { s with
        order := some (Fields.ofUpdate (Fields.values m.toMap))
        queue := queue
        checkout := .ordered }
    | .delete :: queue =>
      some { s with cart := none, queue := queue, checkout := .finished }
  | .resumeAdd i =>
    match s.replies[i]? with
    | some (l, true) =>
      some { s with products := s.products ++ [l], replies := s.replies.eraseIdx i }
    | some (l, false) =>
      -- the line goes to the list once the new document is written
      some { s with queue := s.queue ++ [.set l], replies := s.replies.eraseIdx i }
    | none => none
  | .resumeBuy =>
    match s.checkout with
    | .ordered =>
      some { s with products := [], queue := s.queue ++ [.delete], checkout := .clearing }
    | _ => none

/-- **What a step of the device is.** -/
inductive DeviceMove (s : Device) : DeviceAction → Device → Prop
  | addToCart (l : OrderModel) :
      DeviceMove s (.addToCart l)
        { s with given := s.given ++ [l], queue := s.queue ++ [.update l] }
  | buy (uid : String) (dt : DateTime) (hidle : s.checkout = .idle)
      (hne : s.products ≠ []) :
      DeviceMove s (.buy uid dt)
        { s with
          queue := s.queue ++ [.placeOrder (cartToOrder uid dt s.products)]
          checkout := .ordering (cartToOrder uid dt s.products) }
  | found {l : OrderModel} {queue : List Request} {doc : Fields}
      (hq : s.queue = .update l :: queue) (hcart : s.cart = some doc) :
      DeviceMove s .apply
        { s with
          cart := some (Fields.patch doc (addToCartWrite l))
          queue := queue
          replies := s.replies ++ [(l, true)] }
  | notFound {l : OrderModel} {queue : List Request}
      (hq : s.queue = .update l :: queue) (hcart : s.cart = none) :
      DeviceMove s .apply
        { s with queue := queue, replies := s.replies ++ [(l, false)] }
  | set {l : OrderModel} {queue : List Request} (hq : s.queue = .set l :: queue) :
      DeviceMove s .apply
        { s with
          cart := some (Fields.ofUpdate (addToCartWrite l))
          queue := queue
          replies := s.replies ++ [(l, true)] }
  | placeOrder {m : OrderCartModel} {queue : List Request}
      (hq : s.queue = .placeOrder m :: queue) :
      DeviceMove s .apply
        { s with
          order := some (Fields.ofUpdate (Fields.values m.toMap))
          queue := queue
          checkout := .ordered }
  | delete {queue : List Request} (hq : s.queue = .delete :: queue) :
      DeviceMove s .apply { s with cart := none, queue := queue, checkout := .finished }
  | resumeFound {i : ℕ} {l : OrderModel} (hi : s.replies[i]? = some (l, true)) :
      DeviceMove s (.resumeAdd i)
        { s with products := s.products ++ [l], replies := s.replies.eraseIdx i }
  | resumeNotFound {i : ℕ} {l : OrderModel} (hi : s.replies[i]? = some (l, false)) :
      DeviceMove s (.resumeAdd i)
        { s with queue := s.queue ++ [.set l], replies := s.replies.eraseIdx i }
  | resumeBuy (hordered : s.checkout = .ordered) :
      DeviceMove s .resumeBuy
        { s with products := [], queue := s.queue ++ [.delete], checkout := .clearing }

theorem deviceMove_of_step {s s' : Device} {a : DeviceAction}
    (h : deviceStep s a = some s') : DeviceMove s a s' := by
  cases a with
  | addToCart l =>
    obtain rfl := Option.some.inj h
    exact .addToCart l
  | buy uid dt =>
    unfold deviceStep at h
    by_cases hguard : s.checkout = .idle ∧ s.products ≠ []
    · simp only [if_pos hguard, Option.some.injEq] at h
      rw [← h]
      exact .buy uid dt hguard.1 hguard.2
    · simp [hguard] at h
  | apply =>
    rcases hq : s.queue with _ | ⟨(l | l | m | _), queue⟩
    · simp [deviceStep, hq] at h
    · rcases hcart : s.cart with _ | doc
      · simp only [deviceStep, hq, hcart, Option.some.injEq] at h
        rw [← h, ← hcart]
        exact .notFound hq hcart
      · simp only [deviceStep, hq, hcart, Option.some.injEq] at h
        rw [← h]
        exact .found hq hcart
    · simp only [deviceStep, hq, Option.some.injEq] at h
      rw [← h]
      exact .set hq
    · simp only [deviceStep, hq, Option.some.injEq] at h
      rw [← h]
      exact .placeOrder hq
    · simp only [deviceStep, hq, Option.some.injEq] at h
      rw [← h]
      exact .delete hq
  | resumeAdd i =>
    rcases hi : s.replies[i]? with _ | ⟨l, (_ | _)⟩
    · simp [deviceStep, hi] at h
    · simp only [deviceStep, hi, Option.some.injEq] at h
      rw [← h]
      exact .resumeNotFound hi
    · simp only [deviceStep, hi, Option.some.injEq] at h
      rw [← h]
      exact .resumeFound hi
  | resumeBuy =>
    rcases hc : s.checkout with _ | m | _ | _ | _
    · simp [deviceStep, hc] at h
    · simp [deviceStep, hc] at h
    · simp only [deviceStep, hc, Option.some.injEq] at h
      rw [← h]
      exact .resumeBuy hc
    · simp [deviceStep, hc] at h
    · simp [deviceStep, hc] at h

/-! ## Where a line is -/

/-- The lines of the writes that wait. -/
def issuedLines (queue : List Request) : List OrderModel :=
  queue.filterMap Request.line?

/-- The lines of the answers that wait, by whether the document was found. -/
def repliedLines (found : Bool) (replies : List (OrderModel × Bool)) :
    List OrderModel :=
  (replies.filter (fun r => r.snd == found)).map Prod.fst

/-- The lines of the cart document. -/
def cartLines (cart : Option Fields) : List OrderModel :=
  (cart.bind cartItems).getD []

/-- The lines of the order. -/
def orderLines (order : Option Fields) : List OrderModel :=
  ((order.bind OrderCartModel.fromMap).map OrderCartModel.items).getD []

@[simp] theorem cartLines_none : cartLines none = [] := rfl

@[simp] theorem cartLines_cartDoc (ls : List OrderModel) :
    cartLines (some (cartDoc ls)) = ls := by
  show (cartItems (cartDoc ls)).getD [] = ls
  rw [cartItems_cartDoc]
  rfl

@[simp] theorem orderLines_none : orderLines none = [] := rfl

@[simp] theorem orderLines_toMap (m : OrderCartModel) :
    orderLines (some m.toMap) = m.items := by
  show ((OrderCartModel.fromMap m.toMap).map OrderCartModel.items).getD [] = m.items
  rw [OrderCartModel.fromMap_toMap]
  rfl

section Count

variable (x : OrderModel)

theorem count_issuedLines_append (q r : List Request) :
    (issuedLines (q ++ r)).count x = (issuedLines q).count x + (issuedLines r).count x := by
  unfold issuedLines
  rw [List.filterMap_append, List.count_append]

theorem count_repliedLines_append (b : Bool) (q r : List (OrderModel × Bool)) :
    (repliedLines b (q ++ r)).count x
      = (repliedLines b q).count x + (repliedLines b r).count x := by
  unfold repliedLines
  rw [List.filter_append, List.map_append, List.count_append]

/-- An answer taken up is one fewer. -/
theorem count_repliedLines_eraseIdx {replies : List (OrderModel × Bool)} {i : ℕ}
    {r : OrderModel × Bool} (hi : replies[i]? = some r) (b : Bool) :
    (repliedLines b replies).count x
      = (repliedLines b [r]).count x + (repliedLines b (replies.eraseIdx i)).count x := by
  have hlines : (repliedLines b replies).Perm (repliedLines b (r :: replies.eraseIdx i)) :=
    ((perm_cons_eraseIdx hi).filter _).map _
  rw [hlines.count_eq, ← count_repliedLines_append]
  rfl

end Count

/-- **Where the lines are between the steps.** -/
structure LinesKept (s : Device) : Prop where
  /-- No line is given twice. -/
  given : s.given.Nodup
  /-- The cart document is one of lines. -/
  cart : s.cart = none ∨ ∃ ls, s.cart = some (cartDoc ls)
  /-- Each line given waits in a write or an answer, or is in the document –
  unless what is there has been ordered – or is in the order. -/
  lines : ∀ x, s.given.count x = (issuedLines s.queue).count x
    + (repliedLines false s.replies).count x
    + (if s.checkout.paid then 0 else (cartLines s.cart).count x)
    + (orderLines s.order).count x
  /-- Of checkout's writes, the one it waits for is the one issued. -/
  pending : s.queue.filterMap Request.checkout? = s.checkout.pending
  /-- There is no order before its write is applied. -/
  unplaced : s.checkout.paid = false → s.checkout ≠ .finished → s.order = none
  /-- While checkout is under way no line is in the document that the device
  has yet to be told of. -/
  landed : s.checkout.taken = true → repliedLines true s.replies = []
  /-- Otherwise the list is the document, save for those lines. -/
  device : s.checkout.taken = false → ∀ x, (cartLines s.cart).count x
    = s.products.count x + (repliedLines true s.replies).count x
  /-- The order on its way is of the lines of the document. -/
  ordering : ∀ m, s.checkout = .ordering m →
    ∀ x, (cartLines s.cart).count x = m.items.count x
  /-- The list is empty once it has been ordered. -/
  cleared : s.checkout = .clearing → s.products = []

/-- **Nothing reaches the cart document while checkout has taken the list**,
no line is given twice, and no document is put over another. -/
def Undisturbed (s : Device) : DeviceAction → Prop
  | .addToCart l => l ∉ s.given
  | .buy _ _ => repliedLines true s.replies = []
  | .apply =>
    match s.queue.head? with
    | some (.update _) => s.cart = none ∨ s.checkout.taken = false
    | some (.set _) => s.cart = none ∧ s.checkout.taken = false
    | _ => True
  | .resumeAdd _ => True
  | .resumeBuy => True

instance (s : Device) : (a : DeviceAction) → Decidable (Undisturbed s a)
  | .addToCart l => inferInstanceAs (Decidable (l ∉ s.given))
  | .buy _ _ => inferInstanceAs (Decidable (repliedLines true s.replies = []))
  | .apply =>
    match h : s.queue.head? with
    | some (.update _) =>
      decidable_of_iff (s.cart = none ∨ s.checkout.taken = false)
        (by unfold Undisturbed; rw [h])
    | some (.set _) =>
      decidable_of_iff (s.cart = none ∧ s.checkout.taken = false)
        (by unfold Undisturbed; rw [h])
    | some (.placeOrder _) => isTrue (by unfold Undisturbed; rw [h]; trivial)
    | some .delete => isTrue (by unfold Undisturbed; rw [h]; trivial)
    | none => isTrue (by unfold Undisturbed; rw [h]; trivial)
  | .resumeAdd _ => isTrue trivial
  | .resumeBuy => isTrue trivial

/-- A device whose user has some lines in the cart already, or no cart
document. -/
def Device.start (lines : Option (List OrderModel)) : Device where
  given := lines.getD []
  cart := lines.map cartDoc
  order := none
  products := lines.getD []
  queue := []
  replies := []
  checkout := .idle

theorem linesKept_start {lines : Option (List OrderModel)}
    (hnodup : (lines.getD []).Nodup) : LinesKept (Device.start lines) := by
  have hcart : cartLines (Device.start lines).cart = lines.getD [] := by
    cases lines with
    | none => rfl
    | some ls => exact cartLines_cartDoc ls
  constructor
  · exact hnodup
  · cases lines with
    | none => exact Or.inl rfl
    | some ls => exact Or.inr ⟨ls, rfl⟩
  · intro x
    rw [hcart]
    simp [Device.start, Checkout.paid, issuedLines, repliedLines]
  · rfl
  · exact fun _ _ => rfl
  · intro h
    exact absurd h Bool.false_ne_true
  · intro _ x
    rw [hcart]
    simp [Device.start, repliedLines]
  · intro m hm
    exact absurd hm (by simp [Device.start])
  · intro h
    exact absurd h (by simp [Device.start])

namespace LinesKept

variable {s s' : Device} {a : DeviceAction}

/-- A line that waits in a write is not in the document, unless what is there
has been ordered. -/
theorem notMem_cartLines (h : LinesKept s) {l : OrderModel} {q : List Request}
    {r : Request} (hq : s.queue = r :: q) (hr : r.line? = some l)
    (hpaid : s.checkout.paid = false) : l ∉ cartLines s.cart := by
  intro hl
  have hcount := h.lines l
  have hgiven := List.nodup_iff_count_le_one.mp h.given l
  have hissued : (issuedLines s.queue).count l = (issuedLines q).count l + 1 := by
    rw [hq, show issuedLines (r :: q) = l :: issuedLines q from List.filterMap_cons_some hr,
      List.count_cons_self]
  have hpos : 0 < (cartLines s.cart).count l := List.count_pos_iff.mpr hl
  rw [hissued, hpaid] at hcount
  simp only [Bool.false_eq_true, if_false] at hcount
  omega

/-- While checkout is not under way nothing has been ordered of what is in the
document. -/
theorem paid_of_not_taken (h : s.checkout.taken = false) : s.checkout.paid = false := by
  cases hc : s.checkout with
  | idle => rfl
  | finished => rfl
  | ordering m => rfl
  | ordered => rw [hc] at h; exact absurd h (by decide)
  | clearing => rw [hc] at h; exact absurd h (by decide)

/-- The first of checkout's writes issued is the one it waits for. -/
theorem pending_of_queue (h : LinesKept s) {r : Request} {q : List Request}
    (hq : s.queue = r :: q) (hr : r.checkout? = some r) :
    s.checkout.pending = r :: q.filterMap Request.checkout? := by
  rw [← h.pending, hq, List.filterMap_cons_some hr]

/-- The order a device waits for is the one its checkout issued. -/
theorem ordering_of_queue (h : LinesKept s) {m : OrderCartModel} {q : List Request}
    (hq : s.queue = .placeOrder m :: q) :
    s.checkout = .ordering m ∧ q.filterMap Request.checkout? = [] :=
  Checkout.eq_ordering_of_pending (h.pending_of_queue hq rfl)

/-- A deletion that waits is the one checkout issued last. -/
theorem clearing_of_queue (h : LinesKept s) {q : List Request}
    (hq : s.queue = .delete :: q) :
    s.checkout = .clearing ∧ q.filterMap Request.checkout? = [] :=
  Checkout.eq_clearing_of_pending (h.pending_of_queue hq rfl)

/-- **A line given to `addToCart`** is on its way, in the queue. -/
theorem addToCart (h : LinesKept s) {l : OrderModel} (hnew : l ∉ s.given) :
    LinesKept { s with given := s.given ++ [l], queue := s.queue ++ [.update l] } := by
  refine ⟨?_, h.cart, fun x => ?_, ?_, h.unplaced, h.landed, h.device, h.ordering, h.cleared⟩
  · rw [List.nodup_append]
    refine ⟨h.given, List.pairwise_singleton _ _, fun a ha b hb hab => ?_⟩
    rw [List.mem_singleton.mp hb] at hab
    exact hnew (hab ▸ ha)
  · have hlines := h.lines x
    rw [count_issuedLines_append, List.count_append,
      show issuedLines [.update l] = [l] from rfl]
    dsimp only
    omega
  · rw [List.filterMap_append]
    exact (List.append_nil _).trans h.pending

/-- Checkout copies the list while no answer waits. -/
theorem buy (h : LinesKept s) (uid : String) (dt : DateTime)
    (hidle : s.checkout = .idle) (hlanded : repliedLines true s.replies = []) :
    LinesKept { s with
      queue := s.queue ++ [.placeOrder (cartToOrder uid dt s.products)]
      checkout := .ordering (cartToOrder uid dt s.products) } := by
  have htaken : s.checkout.taken = false := by rw [hidle]; rfl
  refine ⟨h.given, h.cart, fun x => ?_, ?_, fun _ _ => ?_, fun _ => hlanded, fun hc => ?_,
    fun m hm x => ?_, fun hc => ?_⟩
  · have hlines := h.lines x
    rw [hidle] at hlines
    rw [count_issuedLines_append]
    exact hlines
  · rw [List.filterMap_append, h.pending, hidle]
    rfl
  · exact h.unplaced (by rw [hidle]; rfl) (by rw [hidle]; decide)
  · exact absurd hc (by simp [Checkout.taken])
  · have hdevice := h.device htaken x
    rw [hlanded] at hdevice
    obtain rfl := Checkout.ordering.inj hm
    exact hdevice
  · exact absurd hc (by simp)

/-- **A line joins those of the document**, on its own way to it: the device
has yet to be told. -/
theorem lands (h : LinesKept s) {l : OrderModel} {r : Request} {q : List Request}
    (hq : s.queue = r :: q) (hissued : issuedLines (r :: q) = [l] ++ issuedLines q)
    (hpending : q.filterMap Request.checkout? = s.checkout.pending)
    (htaken : s.checkout.taken = false) :
    LinesKept { s with
      cart := some (cartDoc (cartLines s.cart ++ [l]))
      queue := q
      replies := s.replies ++ [(l, true)] } := by
  have hpaid := paid_of_not_taken htaken
  refine ⟨h.given, Or.inr ⟨_, rfl⟩, fun x => ?_, hpending, h.unplaced, fun hc => ?_,
    fun _ x => ?_, fun m hm => ?_, h.cleared⟩
  · have hlines := h.lines x
    rw [hq, hissued, List.count_append, hpaid] at hlines
    rw [count_repliedLines_append, hpaid, cartLines_cartDoc, List.count_append,
      show repliedLines false [(l, true)] = [] from rfl]
    simp only [Bool.false_eq_true, if_false, List.count_nil] at hlines ⊢
    omega
  · exact absurd (hc.symm.trans htaken) (by decide)
  · have hdevice := h.device htaken x
    rw [count_repliedLines_append, cartLines_cartDoc, List.count_append,
      show repliedLines true [(l, true)] = [l] from rfl]
    dsimp only
    omega
  · have hc : s.checkout = .ordering m := hm
    rw [hc] at htaken
    exact absurd htaken (by simp [Checkout.taken])

/-- A line reaches a cart document. -/
theorem found (h : LinesKept s) {l : OrderModel} {q : List Request} {doc : Fields}
    (hq : s.queue = .update l :: q) (hcart : s.cart = some doc)
    (htaken : s.checkout.taken = false) :
    LinesKept { s with
      cart := some (Fields.patch doc (addToCartWrite l))
      queue := q
      replies := s.replies ++ [(l, true)] } := by
  obtain ⟨ls, hls⟩ : ∃ ls, s.cart = some (cartDoc ls) := by
    refine h.cart.resolve_left (fun hnone => ?_)
    rw [hcart] at hnone
    exact absurd hnone (by simp)
  have hnew := h.notMem_cartLines hq rfl (paid_of_not_taken htaken)
  -- the line is not there yet, so the union appends it
  have hdoc : Fields.patch doc (addToCartWrite l) = cartDoc (cartLines s.cart ++ [l]) := by
    rw [hls, cartLines_cartDoc] at hnew ⊢
    rw [← Option.some.inj (hls.symm.trans hcart), patch_addToCartWrite,
      union_of_notMem hnew]
  have hpending := h.pending
  rw [hq] at hpending
  rw [hdoc]
  exact h.lands hq rfl hpending htaken

/-- An update that finds no cart document leaves the lines where they are. -/
theorem notFound (h : LinesKept s) {l : OrderModel} {q : List Request}
    (hq : s.queue = .update l :: q) :
    LinesKept { s with queue := q, replies := s.replies ++ [(l, false)] } := by
  refine ⟨h.given, h.cart, fun x => ?_, ?_, h.unplaced, fun hc => ?_, fun hc x => ?_,
    h.ordering, h.cleared⟩
  · have hlines := h.lines x
    rw [hq, show issuedLines (.update l :: q) = [l] ++ issuedLines q from rfl,
      List.count_append] at hlines
    rw [count_repliedLines_append, show repliedLines false [(l, false)] = [l] from rfl]
    dsimp only
    omega
  · have hpending := h.pending
    rw [hq] at hpending
    exact hpending
  · have hlanded := h.landed hc
    unfold repliedLines at hlanded ⊢
    rw [List.filter_append, List.map_append, hlanded]
    rfl
  · have hdevice := h.device hc x
    rw [count_repliedLines_append, show repliedLines true [(l, false)] = [] from rfl]
    exact hdevice

/-- A line is put as a new cart document. -/
theorem set (h : LinesKept s) {l : OrderModel} {q : List Request}
    (hq : s.queue = .set l :: q) (hcart : s.cart = none)
    (htaken : s.checkout.taken = false) :
    LinesKept { s with
      cart := some (Fields.ofUpdate (addToCartWrite l))
      queue := q
      replies := s.replies ++ [(l, true)] } := by
  have hdoc : Fields.ofUpdate (addToCartWrite l) = cartDoc (cartLines s.cart ++ [l]) := by
    rw [ofUpdate_addToCartWrite, hcart, cartLines_none]
    rfl
  have hpending := h.pending
  rw [hq] at hpending
  rw [hdoc]
  exact h.lands hq rfl hpending htaken

/-- The order is written: the lines of the document are in it. -/
theorem placeOrder (h : LinesKept s) {m : OrderCartModel} {q : List Request}
    (hq : s.queue = .placeOrder m :: q) :
    LinesKept { s with
      order := some (Fields.ofUpdate (Fields.values m.toMap))
      queue := q
      checkout := .ordered } := by
  obtain ⟨hc, hrest⟩ := h.ordering_of_queue hq
  rw [Fields.ofUpdate_values (OrderCartModel.toMap_sorted m)]
  refine ⟨h.given, h.cart, fun x => ?_, hrest, fun hp => ?_, fun _ => ?_, fun ht => ?_,
    fun m' hm' => ?_, fun hcl => ?_⟩
  · have hlines := h.lines x
    -- the order was made of the lines that were, and are, in the document
    have hitems := h.ordering m hc x
    have hnone := h.unplaced (by rw [hc]; rfl) (by rw [hc]; simp)
    rw [hq, show issuedLines (.placeOrder m :: q) = issuedLines q from rfl, hc, hnone,
      orderLines_none] at hlines
    rw [orderLines_toMap]
    simp only [Checkout.paid, Bool.false_eq_true, if_false, if_true, List.count_nil]
      at hlines ⊢
    omega
  · exact absurd hp (by simp [Checkout.paid])
  · exact h.landed (by rw [hc]; rfl)
  · exact absurd ht (by simp [Checkout.taken])
  · exact absurd hm' (by simp)
  · exact absurd hcl (by simp)

/-- The cart document is deleted: its lines have been ordered. -/
theorem delete (h : LinesKept s) {q : List Request} (hq : s.queue = .delete :: q) :
    LinesKept { s with cart := none, queue := q, checkout := .finished } := by
  obtain ⟨hc, hrest⟩ := h.clearing_of_queue hq
  refine ⟨h.given, Or.inl rfl, fun x => ?_, hrest, fun _ hf => absurd rfl hf,
    fun ht => absurd ht (by simp [Checkout.taken]), fun _ x => ?_, fun m hm => ?_, fun hcl => ?_⟩
  · have hlines := h.lines x
    rw [hq, show issuedLines (.delete :: q) = issuedLines q from rfl, hc] at hlines
    exact hlines
  · rw [h.cleared hc, h.landed (by rw [hc]; rfl)]
    rfl
  · exact absurd hm (by simp)
  · exact absurd hcl (by simp)

/-- A call of `addToCart` is told that the document was found. -/
theorem resumeFound (h : LinesKept s) {i : ℕ} {l : OrderModel}
    (hi : s.replies[i]? = some (l, true)) :
    LinesKept { s with
      products := s.products ++ [l]
      replies := s.replies.eraseIdx i } := by
  have hmem : l ∈ repliedLines true s.replies :=
    List.mem_map.mpr ⟨(l, true), List.mem_filter.mpr ⟨List.mem_of_getElem? hi, rfl⟩, rfl⟩
  have htaken : s.checkout.taken = false := by
    by_contra hc
    rw [h.landed ((Bool.not_eq_false _).mp hc)] at hmem
    exact absurd hmem List.not_mem_nil
  refine ⟨h.given, h.cart, fun x => ?_, h.pending, h.unplaced, fun hc => ?_,
    fun _ x => ?_, fun m hm => h.ordering m hm, fun hcl => ?_⟩
  · have hlines := h.lines x
    rw [count_repliedLines_eraseIdx x hi false,
      show repliedLines false [(l, true)] = [] from rfl, List.count_nil] at hlines
    dsimp only
    omega
  · exact absurd (hc.symm.trans htaken) (by decide)
  · have hdevice := h.device htaken x
    rw [count_repliedLines_eraseIdx x hi true,
      show repliedLines true [(l, true)] = [l] from rfl] at hdevice
    rw [List.count_append]
    dsimp only
    omega
  · have hclearing : s.checkout = .clearing := hcl
    rw [hclearing] at htaken
    exact absurd htaken (by decide)

/-- A call of `addToCart` is told that there is no document. -/
theorem resumeNotFound (h : LinesKept s) {i : ℕ} {l : OrderModel}
    (hi : s.replies[i]? = some (l, false)) :
    LinesKept { s with
      queue := s.queue ++ [.set l]
      replies := s.replies.eraseIdx i } := by
  have hfound : ∀ x, (repliedLines true s.replies).count x
      = (repliedLines true (s.replies.eraseIdx i)).count x := by
    intro x
    rw [count_repliedLines_eraseIdx x hi true,
      show repliedLines true [(l, false)] = [] from rfl, List.count_nil, Nat.zero_add]
  refine ⟨h.given, h.cart, fun x => ?_, ?_, h.unplaced, fun hc => ?_, fun hc x => ?_,
    h.ordering, h.cleared⟩
  · have hlines := h.lines x
    rw [count_repliedLines_eraseIdx x hi false,
      show repliedLines false [(l, false)] = [l] from rfl] at hlines
    rw [count_issuedLines_append, show issuedLines [.set l] = [l] from rfl]
    dsimp only
    omega
  · rw [List.filterMap_append]
    exact (List.append_nil _).trans h.pending
  · refine List.eq_nil_iff_forall_not_mem.mpr (fun x hx => ?_)
    have hpos : 0 < (repliedLines true (s.replies.eraseIdx i)).count x :=
      List.count_pos_iff.mpr hx
    rw [← hfound x, h.landed hc, List.count_nil] at hpos
    exact absurd hpos (Nat.lt_irrefl 0)
  · rw [← hfound x]
    exact h.device hc x

/-- Checkout empties the list and issues the deletion. -/
theorem resumeBuy (h : LinesKept s) (hc : s.checkout = .ordered) :
    LinesKept { s with
      products := []
      queue := s.queue ++ [.delete]
      checkout := .clearing } := by
  refine ⟨h.given, h.cart, fun x => ?_, ?_,
    fun hp => absurd hp (by simp [Checkout.paid]), fun _ => ?_,
    fun ht => absurd ht (by simp [Checkout.taken]), fun m hm => absurd hm (by simp), fun _ => rfl⟩
  · have hlines := h.lines x
    rw [hc] at hlines
    rw [count_issuedLines_append]
    exact hlines
  · rw [List.filterMap_append, h.pending, hc]
    rfl
  · exact h.landed (by rw [hc]; rfl)

/-- **An undisturbed step loses no line.** -/
theorem step (h : LinesKept s) (hC : Undisturbed s a) (hstep : deviceStep s a = some s') :
    LinesKept s' := by
  cases deviceMove_of_step hstep with
  | addToCart l => exact h.addToCart hC
  | buy uid dt hidle hne => exact h.buy uid dt hidle hC
  | found hq hcart =>
    unfold Undisturbed at hC
    rw [hq, hcart] at hC
    exact h.found hq hcart (hC.resolve_left (by simp))
  | notFound hq hcart => exact h.notFound hq
  | set hq =>
    unfold Undisturbed at hC
    rw [hq] at hC
    exact h.set hq hC.1 hC.2
  | placeOrder hq => exact h.placeOrder hq
  | delete hq => exact h.delete hq
  | resumeFound hi => exact h.resumeFound hi
  | resumeNotFound hi => exact h.resumeNotFound hi
  | resumeBuy hc => exact h.resumeBuy hc

end LinesKept

/-! ## Runs -/

/-- Nothing is in flight: no write, no answer and no checkout. -/
def Device.Quiet (s : Device) : Prop :=
  s.queue = [] ∧ s.replies = [] ∧ (s.checkout = .idle ∨ s.checkout = .finished)

instance (s : Device) : Decidable s.Quiet := inferInstanceAs (Decidable (_ ∧ _))

/-- **Every line given is in one place**: once in the cart document, and then
once in the list, or once in the order. -/
def InOnePlace (s : Device) : Prop :=
  ∀ l ∈ s.given, (cartLines s.cart).count l + (orderLines s.order).count l = 1
    ∧ s.products.count l = (cartLines s.cart).count l

instance (s : Device) : Decidable (InOnePlace s) :=
  inferInstanceAs (Decidable (∀ l ∈ s.given, _))

/-- With nothing in flight, every line kept is in one place. -/
theorem LinesKept.inOnePlace {s : Device} (h : LinesKept s) (hquiet : s.Quiet) :
    InOnePlace s := by
  obtain ⟨hqueue, hreplies, hcheckout⟩ := hquiet
  have htaken : s.checkout.taken = false := by
    rcases hcheckout with hc | hc
    · rw [hc]; rfl
    · rw [hc]; rfl
  intro l hl
  -- nothing waits, so the line given once is in the document or in the order
  have hlines := h.lines l
  have hdevice := h.device htaken l
  rw [hqueue, hreplies, LinesKept.paid_of_not_taken htaken,
    List.count_eq_one_of_mem h.given hl] at hlines
  rw [hreplies] at hdevice
  simp only [issuedLines, repliedLines, List.filterMap_nil, List.filter_nil, List.map_nil,
    List.count_nil, Bool.false_eq_true, if_false] at hlines hdevice
  omega

/-- **No line is lost or doubled while nothing disturbs checkout.** Of a
device in any run of `addToCart` calls and a checkout, its writes applied in
the order issued and its answers taken up at any moment, whenever nothing is
in flight every line given is in exactly one place, if every step of the run
is undisturbed. -/
theorem lines_in_one_place (lines : Option (List OrderModel))
    (hnodup : (lines.getD []).Nodup) (as : List DeviceAction) (s : Device)
    (hmeets : Runs.Meets deviceStep Undisturbed (Device.start lines) as)
    (hrun : Runs.run deviceStep (Device.start lines) as = some s) (hquiet : s.Quiet) :
    InOnePlace s :=
  ((Runs.along_of_meets (fun _ _ _ h hC hstep => h.step hC hstep)
    (linesKept_start hnodup) hmeets).last hrun).inOnePlace hquiet

/-- The law at work: a line added before checkout and one after. -/
theorem lines_in_one_place_two :
    ∃ s, Runs.run deviceStep (Device.start none)
        [.addToCart (cartLine "1" 1), .apply, .resumeAdd 0, .apply, .resumeAdd 0,
          .buy "u" ⟨5000⟩, .apply, .resumeBuy, .addToCart (cartLine "2" 1), .apply, .apply,
          .resumeAdd 0, .apply, .resumeAdd 0] = some s ∧ InOnePlace s := by
  have hend : (Runs.run deviceStep (Device.start none)
      [.addToCart (cartLine "1" 1), .apply, .resumeAdd 0, .apply, .resumeAdd 0,
        .buy "u" ⟨5000⟩, .apply, .resumeBuy, .addToCart (cartLine "2" 1), .apply, .apply,
        .resumeAdd 0, .apply, .resumeAdd 0]).any (fun s => s.Quiet) = true := by decide +kernel
  obtain ⟨s, hrun, hquiet⟩ := (Option.any_eq_true _ _).mp hend
  exact ⟨s, hrun, lines_in_one_place none (by decide) _ s (by decide) hrun
    (of_decide_eq_true hquiet)⟩

/-- **A line lost at checkout**: the line reaches the cart document, checkout
copies the list without it and deletes the document. It is shown in the list
afterwards, and is in no document. -/
theorem line_lost_at_checkout :
    ¬ ∀ (lines : Option (List OrderModel)) (as : List DeviceAction) (s : Device),
      (lines.getD []).Nodup →
      Runs.run deviceStep (Device.start lines) as = some s → s.Quiet → InOnePlace s := by
  intro h
  have hend : (Runs.run deviceStep (Device.start (some [cartLine "1" 1]))
      [.addToCart (cartLine "2" 1), .apply, .buy "u" ⟨5000⟩, .apply, .resumeBuy, .apply,
        .resumeAdd 0]).any (fun s => s.Quiet ∧ ¬ InOnePlace s) = true := by decide +kernel
  obtain ⟨s, hrun, hlost⟩ := (Option.any_eq_true _ _).mp hend
  obtain ⟨hquiet, hnot⟩ := of_decide_eq_true hlost
  exact hnot (h (some [cartLine "1" 1]) _ s (by decide) hrun hquiet)
