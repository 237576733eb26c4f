import Enmart.Base.Runs
import Enmart.Cart.Provider

/-!
# One line for each product

The page of the products offers to add one as long as the list of
`CartProvider` has no line of it, and nothing else keeps a product from being
added twice. The list is behind the document: a line joins it when its call
completes, a sign-in through the login page does not read it, and it is
whoever's it was. `addToCart` itself compares whole lines, and two lines of one
product differ in their time.

`guardStep` is any number of devices that users sign in and out of, taps of the
button, calls of `addToCart`, and checkouts. The client of a device keeps the
writes it issues for an account in a queue, and they reach the store in that
order; those of other devices and accounts come in between. A user's cart and
the lines on their way to it have each product once, as long as each tap – and
each second request, made for whoever is signed in by then – is for a product
that neither has (`one_line_each_of_meets`).
-/

open Firestore SetArray

/-- What a device asks of the store. -/
inductive GuardWrite where
  /-- `addToCart` adds its line to the cart document. -/
  | update (order : OrderModel)
  /-- `addToCart` puts a cart document with its line. -/
  | set (order : OrderModel)
  /-- `cartToOrder` puts the order. -/
  | placeOrder
  /-- `clearCart` deletes the cart document. -/
  | delete
  deriving DecidableEq, Repr

/-- A write on its way: the device it comes from, the account signed in there
when it was issued, and whose cart document it is about. -/
structure GuardRequest where
  device : ℕ
  uid : Option String
  write : GuardWrite
  deriving DecidableEq, Repr

/-- What the store answers to a write. -/
inductive GuardAnswer where
  /-- There was no cart document to add the line to. -/
  | missing (order : OrderModel)
  /-- The line is in a cart document. -/
  | added (order : OrderModel)
  /-- The order is placed. -/
  | ordered
  deriving DecidableEq, Repr

/-- An answer the device has not taken up, to a write of an account. -/
structure GuardReply where
  device : ℕ
  uid : Option String
  answer : GuardAnswer
  deriving DecidableEq, Repr

/-- **The devices, the carts, and the requests on their way.** -/
structure GuardState where
  carts : Collection
  authUser : ℕ → Option String
  /-- The list of each device's `CartProvider`. -/
  lists : ℕ → List OrderModel
  /-- The product each device shows `AddToCartModal` for, if it does. -/
  modals : ℕ → Option String
  /-- The carts read by the splash screens, not taken up yet. -/
  reads : List (ℕ × Option Fields)
  /-- The writes issued and not yet at the store, in the order they were
  issued. -/
  queue : List GuardRequest
  replies : List GuardReply

/-- What happens next. -/
inductive GuardAction where
  | signIn (device : ℕ) (uid : String)
  | signOut (device : ℕ)
  /-- The splash screen reads the cart of the account signed in. -/
  | readCart (device : ℕ)
  /-- A cart read becomes the list of its device. -/
  | showCart (i : ℕ)
  /-- The button of a product is tapped. -/
  | openModal (device : ℕ) (productId : String)
  /-- The modal adds its line. -/
  | tap (device : ℕ) (n : SliderCounters) (now now' : DateTime)
  /-- What is in the list is bought. -/
  | buy (device : ℕ)
  /-- A write reaches the store. -/
  | land (i : ℕ)
  /-- A write meets an error other than a missing document. -/
  | fail (i : ℕ)
  /-- A device takes up an answer. -/
  | answer (i : ℕ)
  deriving DecidableEq, Repr

namespace GuardState

/-- The carts with a document put for an account; for nobody it is nobody's. -/
def put (s : GuardState) (uid : Option String) (doc : Fields) : Collection :=
  match uid with
  | some uid => Function.update s.carts uid (some doc)
  | none => s.carts

/-- The carts without the one of an account. -/
def drop (s : GuardState) (uid : Option String) : Collection :=
  match uid with
  | some uid => s.carts.delete uid
  | none => s.carts

/-- The list of a device gets a line. -/
def push (s : GuardState) (device : ℕ) (order : OrderModel) : ℕ → List OrderModel :=
  Function.update s.lists device (s.lists device ++ [order])

/-- The button of a product is offered: the list has no line of it. -/
def offered (s : GuardState) (device : ℕ) (productId : String) : Bool :=
  (s.lists device).all (fun l => l.productId ≠ productId)

/-- A device issues a write, for the account signed in. -/
def issue (s : GuardState) (device : ℕ) (write : GuardWrite) : List GuardRequest :=
  s.queue ++ [⟨device, s.authUser device, write⟩]

/-- The write whose turn it is at some place of the queue: none that the
device issued for the account before it still waits. -/
def turn (s : GuardState) (i : ℕ) : Option GuardRequest :=
  s.queue[i]?.filter (fun r =>
    (s.queue.take i).all (fun r' => r'.device ≠ r.device ∨ r'.uid ≠ r.uid))

/-- Devices that have just been started. -/
def start (carts : String → Option (List OrderModel)) (authUser : ℕ → Option String) :
    GuardState where
  carts := fun uid => (carts uid).map cartDoc
  authUser := authUser
  lists := fun _ => []
  modals := fun _ => none
  reads := []
  queue := []
  replies := []

/-- A write has reached the store, with some answer. -/
def landed (s : GuardState) (i : ℕ) (r : GuardRequest) (answer : GuardAnswer) : GuardState :=
  { s with
    queue := s.queue.eraseIdx i
    replies := s.replies ++ [⟨r.device, r.uid, answer⟩] }

end GuardState

/-- **A write at the store.** -/
def landWrite (s : GuardState) (i : ℕ) (r : GuardRequest) : GuardState :=
  match r.write with
  | .update order =>
    match r.uid.bind s.carts with
    | some doc => { s.landed i r (.added order) with
        carts := s.put r.uid (Fields.patch doc (addToCartWrite order)) }
    | none => s.landed i r (.missing order)
  | .set order => { s.landed i r (.added order) with
      carts := s.put r.uid (Fields.ofUpdate (addToCartWrite order)) }
  | .placeOrder => s.landed i r .ordered
  | .delete => { s with carts := s.drop r.uid, queue := s.queue.eraseIdx i }

/-- **A write that fails.** -/
def failWrite (s : GuardState) (i : ℕ) (r : GuardRequest) : GuardState :=
  match r.write with
  -- the error is caught, and the line joins the list all the same
  | .update order => { s with
      lists := s.push r.device order
      queue := s.queue.eraseIdx i }
  | _ => { s with queue := s.queue.eraseIdx i }

/-- **An answer taken up.** -/
def takeUp (s : GuardState) (i : ℕ) (r : GuardReply) : GuardState :=
  match r.answer with
  -- the second request is for the account signed in by now
  | .missing order => { s with
      queue := s.issue r.device (.set order)
      replies := s.replies.eraseIdx i }
  | .added order => { s with
      lists := s.push r.device order
      replies := s.replies.eraseIdx i }
  | .ordered => { s with
      lists := Function.update s.lists r.device []
      queue := s.issue r.device .delete
      replies := s.replies.eraseIdx i }

/-- **One step of the devices and the store.** -/
def guardStep (s : GuardState) : GuardAction → Option GuardState
  -- the list is not read at the login page, nor reset at signing out
  | .signIn device uid => some { s with
      authUser := Function.update s.authUser device (some uid)
      modals := Function.update s.modals device none }
  | .signOut device => some { s with
      authUser := Function.update s.authUser device none
      modals := Function.update s.modals device none }
  | .readCart device =>
    match s.authUser device with
    | some uid => some { s with reads := s.reads ++ [(device, s.carts uid)] }
    | none => none
  | .showCart i =>
    match s.reads[i]? with
    | some (device, doc) =>
      (initializeCart (s.lists device) doc).map (fun products => { s with
        lists := Function.update s.lists device products
        reads := s.reads.eraseIdx i })
    | none => none
  | .openModal device productId =>
    if s.offered device productId then
      some { s with modals := Function.update s.modals device (some productId) }
    else none
  | .tap device n now now' =>
    match s.modals device with
    | some productId => (addToCartModal productId n now now').map (fun order => { s with
        modals := Function.update s.modals device none
        queue := s.issue device (.update order) })
    | none => none
  | .buy device =>
    if s.lists device ≠ [] then some { s with queue := s.issue device .placeOrder }
    else none
  | .land i => (s.turn i).map (landWrite s i)
  | .fail i => (s.turn i).map (failWrite s i)
  | .answer i => s.replies[i]?.map (takeUp s i)

/-! ## The law -/

/-- **At most one line for each product**, in every cart. -/
def OneLineEach (s : GuardState) : Prop :=
  s.carts.Each (fun _ doc => ∀ ls, cartItems doc = some ls →
    (ls.map OrderModel.productId).Nodup)

/-- The line a write may bring into the cart of a user. -/
def GuardRequest.headsFor (uid : String) (r : GuardRequest) : Option OrderModel :=
  match r.write with
  | .update order => if r.uid = some uid then some order else none
  | .set order => if r.uid = some uid then some order else none
  | .placeOrder => none
  | .delete => none

/-- The line a second request may bring there, unless the account changes. -/
def GuardReply.headsFor (uid : String) (r : GuardReply) : Option OrderModel :=
  match r.answer with
  | .missing order => if r.uid = some uid then some order else none
  | .added _ => none
  | .ordered => none

namespace GuardState

/-- The lines of a user's cart. -/
def lines (s : GuardState) (uid : String) : List OrderModel :=
  ((s.carts uid).bind cartItems).getD []

/-- The lines on their way to the cart of a user. -/
def headed (s : GuardState) (uid : String) : List OrderModel :=
  s.queue.filterMap (GuardRequest.headsFor uid)
    ++ s.replies.filterMap (GuardReply.headsFor uid)

/-- The lines of a user's cart, and those on their way to it. -/
def coming (s : GuardState) (uid : String) : List OrderModel :=
  s.lines uid ++ s.headed uid

end GuardState

/-- A line for some account is of a product that neither the account's cart nor
what is on its way there has. -/
def GuardState.NewFor (s : GuardState) (uid : Option String) (productId : String) : Prop :=
  ∀ u ∈ uid, ∀ l ∈ s.coming u, l.productId ≠ productId

instance (s : GuardState) (uid : Option String) (productId : String) :
    Decidable (s.NewFor uid productId) :=
  inferInstanceAs (Decidable (∀ u ∈ uid, _))

/-- The second request of a call is for another account than the first, if the
user of the device has changed meanwhile. -/
def AnswerNew (s : GuardState) (r : GuardReply) : Prop :=
  match r.answer with
  | .missing order => s.authUser r.device ≠ r.uid →
      s.NewFor (s.authUser r.device) order.productId
  | .added _ => True
  | .ordered => True

instance (s : GuardState) : (r : GuardReply) → Decidable (AnswerNew s r)
  | ⟨device, uid, .missing order⟩ => inferInstanceAs (Decidable (s.authUser device ≠ uid →
      s.NewFor (s.authUser device) order.productId))
  | ⟨_, _, .added _⟩ | ⟨_, _, .ordered⟩ => isTrue trivial

/-- **The product is new to the cart**: a tap is for a product of which the
user's cart has no line and none is on its way, and so is a second request made
for another account than the first. -/
def NewToCart (s : GuardState) : GuardAction → Prop
  | .tap device _ _ _ => ∀ productId ∈ s.modals device,
      s.NewFor (s.authUser device) productId
  | .answer i => ∀ r ∈ s.replies[i]?, AnswerNew s r
  | _ => True

instance (s : GuardState) : (a : GuardAction) → Decidable (NewToCart s a)
  | .tap device _ _ _ => inferInstanceAs (Decidable (∀ productId ∈ s.modals device, _))
  | .answer i => inferInstanceAs (Decidable (∀ r ∈ s.replies[i]?, _))
  | .signIn _ _ | .signOut _ | .readCart _ | .showCart _ | .openModal _ _ | .buy _
  | .land _ | .fail _ => isTrue trivial

/-! ## The lines on their way -/

section Headed

variable {s : GuardState} {i : ℕ} {uid : String}

/-- A write whose turn it is waits in the queue. -/
theorem GuardState.queue_of_turn {r : GuardRequest} (h : s.turn i = some r) :
    s.queue[i]? = some r :=
  (Option.filter_eq_some_iff.mp h).1

/-- **A write that lands** takes its line off the way, and its answer may put
it back. -/
theorem headed_landed {r : GuardRequest} (hi : s.queue[i]? = some r) (answer : GuardAnswer)
    (uid : String) :
    ((r.headsFor uid).toList ++ (s.landed i r answer).headed uid).Perm
      (s.headed uid ++ (GuardReply.headsFor uid ⟨r.device, r.uid, answer⟩).toList) := by
  unfold GuardState.landed GuardState.headed
  rw [filterMap_append_singleton, ← List.append_assoc, ← List.append_assoc]
  exact (((filterMap_perm (GuardRequest.headsFor uid) hi).symm).append_right _).append_right _

/-- **An answer taken up** takes its line off the way, and a write issued may
put it back. -/
theorem headed_takeUp {s' : GuardState} {r : GuardReply} {q : GuardRequest}
    (hi : s.replies[i]? = some r) (hqueue : s'.queue = s.queue ++ [q])
    (hreplies : s'.replies = s.replies.eraseIdx i) (uid : String) :
    ((r.headsFor uid).toList ++ s'.headed uid).Perm
      ((q.headsFor uid).toList ++ s.headed uid) := by
  have hperm := filterMap_perm (GuardReply.headsFor uid) hi
  unfold GuardState.headed
  rw [hqueue, hreplies, filterMap_append_singleton]
  refine List.Perm.trans ?_ ((hperm.symm.append_left _).append_left _)
  -- the two lines change places around the queue
  rw [List.perm_iff_count]
  intro l
  simp only [List.count_append]
  omega

/-- A write that leaves the queue for good leaves at most its line. -/
theorem headed_eraseIdx {s' : GuardState} (hqueue : s'.queue = s.queue.eraseIdx i)
    (hreplies : s'.replies = s.replies) (uid : String) :
    List.Subperm (s'.headed uid) (s.headed uid) := by
  unfold GuardState.headed
  rw [hqueue, hreplies]
  exact (List.subperm_append_right _).mpr
    (((List.eraseIdx_sublist s.queue i).filterMap _).subperm)

end Headed

/-- Fewer lines have each product once, too. -/
theorem nodup_of_subperm {xs ys : List OrderModel} (h : xs.Subperm ys)
    (hys : (ys.map OrderModel.productId).Nodup) : (xs.map OrderModel.productId).Nodup := by
  obtain ⟨zs, hperm, hsub⟩ := h
  exact ((hperm.map _).nodup_iff).mp ((hsub.map _).nodup hys)

/-! ## What a step keeps -/

/-- What is so between the steps. -/
structure GuardKept (s : GuardState) : Prop where
  /-- The cart documents are of lines. -/
  carts : s.carts.Each (fun _ doc => ∃ ls, doc = cartDoc ls)
  /-- Every cart and the lines on their way to it have each product once. -/
  distinct : ∀ uid, ((s.coming uid).map OrderModel.productId).Nodup

namespace GuardKept

variable {s s' : GuardState} {a : GuardAction} {i : ℕ}

/-- **Between the steps no cart has two lines of one product.** -/
theorem oneLineEach (h : GuardKept s) : OneLineEach s := by
  intro uid doc hdoc ls hls
  have hlines : s.lines uid = ls := by rw [GuardState.lines, hdoc, Option.bind_some, hls]; rfl
  have hdistinct := h.distinct uid
  rw [GuardState.coming, hlines, List.map_append] at hdistinct
  exact (List.nodup_append.mp hdistinct).1

/-- **With the same carts**, fewer lines may be on their way to each, or one more
of a product new to it. -/
theorem of_headed (h : GuardKept s) (hcarts : s'.carts = s.carts)
    (hheaded : ∀ uid, List.Subperm (s'.headed uid) (s.headed uid) ∨
      ∃ order : OrderModel, (s'.headed uid).Perm (order :: s.headed uid) ∧
        ∀ l ∈ s.coming uid, l.productId ≠ order.productId) : GuardKept s' := by
  refine ⟨by rw [hcarts]; exact h.carts, fun uid => ?_⟩
  have hlines : s'.lines uid = s.lines uid := by rw [GuardState.lines, hcarts]; rfl
  rcases hheaded uid with hsub | ⟨order, hperm, hnew⟩
  · refine nodup_of_subperm ?_ (h.distinct uid)
    rw [GuardState.coming, GuardState.coming, hlines]
    exact (List.subperm_append_left _).mpr hsub
  · have hcoming : (s'.coming uid).Perm (order :: s.coming uid) := by
      rw [GuardState.coming, GuardState.coming, hlines]
      exact (hperm.append_left _).trans List.perm_middle
    rw [(hcoming.map _).nodup_iff, List.map_cons, List.nodup_cons]
    refine ⟨fun hmem => ?_, h.distinct uid⟩
    obtain ⟨l, hl, hsame⟩ := List.mem_map.mp hmem
    exact hnew l hl hsame

/-- The same carts, and the same requests. -/
theorem congr (h : GuardKept s) (hcarts : s'.carts = s.carts) (hqueue : s'.queue = s.queue)
    (hreplies : s'.replies = s.replies) : GuardKept s' :=
  h.of_headed hcarts (fun uid => Or.inl (by
    unfold GuardState.headed
    rw [hqueue, hreplies]))

/-- **A write may be issued**, with a line new to the cart it heads for. -/
theorem issue (h : GuardKept s) {q : GuardRequest} (hcarts : s'.carts = s.carts)
    (hqueue : s'.queue = s.queue ++ [q]) (hreplies : s'.replies = s.replies)
    (hnew : ∀ uid order, q.headsFor uid = some order →
      ∀ l ∈ s.coming uid, l.productId ≠ order.productId) : GuardKept s' := by
  refine h.of_headed hcarts (fun uid => ?_)
  unfold GuardState.headed
  rw [hqueue, hreplies, filterMap_append_singleton]
  cases hq : q.headsFor uid with
  | none => exact Or.inl (by rw [Option.toList_none, List.append_nil])
  | some order =>
    refine Or.inr ⟨order, ?_, hnew uid order hq⟩
    rw [List.append_assoc]
    exact List.perm_middle

/-- **A second request may be made** for another account, if the product is new
to its cart. -/
theorem takeUp_missing (h : GuardKept s) {r : GuardReply} {order : OrderModel}
    (hi : s.replies[i]? = some r) (hr : r.answer = .missing order) (hcarts : s'.carts = s.carts)
    (hqueue : s'.queue = s.issue r.device (.set order))
    (hreplies : s'.replies = s.replies.eraseIdx i)
    (hnew : s.authUser r.device ≠ r.uid → s.NewFor (s.authUser r.device) order.productId) :
    GuardKept s' := by
  refine h.of_headed hcarts (fun uid => ?_)
  have hperm := headed_takeUp hi hqueue hreplies uid
  have hreply : r.headsFor uid = if r.uid = some uid then some order else none := by
    rw [GuardReply.headsFor, hr]
  have hwrite : GuardRequest.headsFor uid ⟨r.device, s.authUser r.device, .set order⟩
      = if s.authUser r.device = some uid then some order else none := rfl
  rw [hwrite, hreply] at hperm
  by_cases hnow : s.authUser r.device = some uid
  · rw [if_pos hnow] at hperm
    by_cases hfirst : r.uid = some uid
    · rw [if_pos hfirst] at hperm
      exact Or.inl (((List.perm_append_left_iff _).mp hperm).subperm)
    · -- the line was not on its way to this cart
      rw [if_neg hfirst] at hperm
      exact Or.inr ⟨order, hperm, hnew (fun hsame => hfirst (hsame ▸ hnow)) uid hnow⟩
  · rw [if_neg hnow] at hperm
    exact Or.inl ((List.sublist_append_right _ _).subperm.trans hperm.subperm)

/-- An answer that is no more than taken up. -/
theorem eraseReply (h : GuardKept s) (hcarts : s'.carts = s.carts)
    (hqueue : s'.queue = s.queue) (hreplies : s'.replies = s.replies.eraseIdx i) :
    GuardKept s' := by
  refine h.of_headed hcarts (fun uid => Or.inl ?_)
  unfold GuardState.headed
  rw [hqueue, hreplies]
  exact (List.subperm_append_left _).mpr
    (((List.eraseIdx_sublist s.replies i).filterMap _).subperm)

/-- A document of an account, as its lines. -/
theorem lines_of_carts {uid : String} {ls : List OrderModel}
    (hdoc : s.carts uid = some (cartDoc ls)) : s.lines uid = ls := by
  rw [GuardState.lines, hdoc, Option.bind_some, cartItems_cartDoc]
  rfl

/-- **The deletion of a cart keeps the invariant.** -/
theorem drop (h : GuardKept s) {uid : Option String} (hcarts : s'.carts = s.drop uid)
    (hqueue : s'.queue = s.queue.eraseIdx i) (hreplies : s'.replies = s.replies) :
    GuardKept s' := by
  refine ⟨?_, fun v => nodup_of_subperm ?_ (h.distinct v)⟩
  · rw [hcarts]
    rcases uid with _ | uid
    · exact h.carts
    · exact h.carts.delete uid
  · have hlines : List.Subperm (s'.lines v) (s.lines v) := by
      rw [GuardState.lines, GuardState.lines, hcarts]
      rcases uid with _ | uid
      · exact List.Subperm.refl _
      · rw [GuardState.drop, Collection.delete]
        by_cases hv : v = uid
        · rw [hv, Function.update_self]
          exact List.nil_subperm
        · rw [Function.update_of_ne hv]
    exact ((List.subperm_append_right _).mpr hlines).trans
      ((List.subperm_append_left _).mpr (headed_eraseIdx hqueue hreplies v))

/-- **A document put for an account** has lines that were in its cart or on their
way, and the other carts are as they were. -/
theorem put (h : GuardKept s) {ls : List OrderModel} {r : GuardRequest} {order : OrderModel}
    (hi : s.queue[i]? = some r)
    (hr : ∀ v, r.headsFor v = if r.uid = some v then some order else none)
    (hls : ∀ v, r.uid = some v → List.Subperm ls (s.lines v ++ [order])) :
    GuardKept { s.landed i r (.added order) with carts := s.put r.uid (cartDoc ls) } := by
  refine ⟨?_, fun v => nodup_of_subperm ?_ (h.distinct v)⟩
  · rcases huid : r.uid with _ | uid
    · exact h.carts
    · exact Collection.Each.put h.carts ⟨ls, rfl⟩
  · have hperm := headed_landed hi (.added order) v
    have hanswer : GuardReply.headsFor v { device := r.device, uid := r.uid, answer := .added order }
        = none := rfl
    rw [hr v, hanswer, Option.toList_none, List.append_nil] at hperm
    show List.Subperm ((((s.put r.uid (cartDoc ls)) v).bind cartItems).getD []
      ++ (s.landed i r (.added order)).headed v) (s.lines v ++ s.headed v)
    by_cases hv : r.uid = some v
    · -- the line comes from the way into the cart
      have hlines : (((s.put r.uid (cartDoc ls)) v).bind cartItems).getD [] = ls := by
        rw [hv, GuardState.put, Function.update_self, Option.bind_some, cartItems_cartDoc]
        rfl
      rw [if_pos hv] at hperm
      rw [hlines]
      refine List.Subperm.trans ?_ ((hperm.append_left (s.lines v)).subperm)
      rw [← List.append_assoc]
      exact (List.subperm_append_right _).mpr (hls v hv)
    · have hlines : (((s.put r.uid (cartDoc ls)) v).bind cartItems).getD [] = s.lines v := by
        rcases huid : r.uid with _ | uid
        · rfl
        · have hne : v ≠ uid := fun hc => hv (by rw [huid, hc])
          rw [GuardState.put, Function.update_of_ne hne]
          rfl
      rw [if_neg hv] at hperm
      rw [hlines]
      exact (hperm.append_left (s.lines v)).subperm

/-- **A write that reaches the store** puts its line in a document, or finds
none. -/
theorem land (h : GuardKept s) {r : GuardRequest} (hi : s.queue[i]? = some r) :
    GuardKept (landWrite s i r) := by
  unfold landWrite
  split
  · next order hr =>
    have hheads : ∀ v, r.headsFor v = if r.uid = some v then some order else none :=
      fun v => by rw [GuardRequest.headsFor, hr]
    split
    · next doc hdoc =>
      -- the document is one of lines, and it gets the line unless it has it
      obtain ⟨uid, huid, hdoc⟩ := Option.bind_eq_some_iff.mp hdoc
      obtain ⟨ls, rfl⟩ := h.carts uid doc hdoc
      rw [patch_addToCartWrite]
      refine h.put hi hheads (fun v hv => ?_)
      obtain rfl := Option.some.inj (huid.symm.trans hv)
      rw [lines_of_carts hdoc, union_singleton]
      split
      · exact (List.sublist_append_left _ _).subperm
      · exact List.Subperm.refl _
    · -- nothing is written, and the line waits in the answer
      refine h.of_headed rfl (fun v => Or.inl ?_)
      have hperm := headed_landed hi (.missing order) v
      rw [hheads v, show GuardReply.headsFor v ⟨r.device, r.uid, .missing order⟩
        = if r.uid = some v then some order else none from rfl] at hperm
      exact ((List.perm_append_left_iff _).mp
        (hperm.trans List.perm_append_comm)).subperm
  · next order hr =>
    rw [ofUpdate_addToCartWrite]
    exact h.put hi (fun v => by rw [GuardRequest.headsFor, hr])
      (fun v _ => (List.sublist_append_right _ _).subperm)
  · refine h.of_headed rfl (fun v => Or.inl ?_)
    have hperm := headed_landed hi .ordered v
    rw [show GuardReply.headsFor v ⟨r.device, r.uid, .ordered⟩ = none from rfl,
      Option.toList_none, List.append_nil] at hperm
    exact (List.sublist_append_right _ _).subperm.trans hperm.subperm
  · exact h.drop rfl rfl rfl

/-- A write that fails leaves the way. -/
theorem fail (h : GuardKept s) (r : GuardRequest) : GuardKept (failWrite s i r) := by
  unfold failWrite
  split
  · refine h.of_headed rfl (fun v => Or.inl ?_)
    exact headed_eraseIdx (i := i) (by rfl) (by rfl) v
  · refine h.of_headed rfl (fun v => Or.inl ?_)
    exact headed_eraseIdx (i := i) (by rfl) (by rfl) v

/-- A write issued at an answer, if it heads for no cart. -/
theorem takeUp_other (h : GuardKept s) {r : GuardReply} {q : GuardRequest}
    (hi : s.replies[i]? = some r) (hcarts : s'.carts = s.carts)
    (hqueue : s'.queue = s.queue ++ [q]) (hreplies : s'.replies = s.replies.eraseIdx i)
    (hq : ∀ uid, q.headsFor uid = none) : GuardKept s' := by
  refine h.of_headed hcarts (fun uid => Or.inl ?_)
  have hperm := headed_takeUp hi hqueue hreplies uid
  rw [hq uid] at hperm
  exact (List.sublist_append_right _ _).subperm.trans hperm.subperm

/-- **An answer taken up** makes the next request of its call, or ends it. -/
theorem answered (h : GuardKept s) {r : GuardReply} (hi : s.replies[i]? = some r)
    (hnew : AnswerNew s r) : GuardKept (takeUp s i r) := by
  unfold takeUp
  unfold AnswerNew at hnew
  split
  · next order hr =>
    rw [hr] at hnew
    exact h.takeUp_missing hi hr rfl rfl rfl hnew
  · exact h.eraseReply rfl rfl rfl
  · exact h.takeUp_other hi rfl rfl rfl (fun _ => rfl)

/-- **A step keeps it**, as long as what is added is new. -/
theorem step (h : GuardKept s) (hC : NewToCart s a) (hstep : guardStep s a = some s') :
    GuardKept s' := by
  cases a with
  | signIn device uid =>
    obtain rfl := Option.some.inj hstep
    exact h.congr rfl rfl rfl
  | signOut device =>
    obtain rfl := Option.some.inj hstep
    exact h.congr rfl rfl rfl
  | readCart device =>
    simp only [guardStep] at hstep
    split at hstep
    · obtain rfl := Option.some.inj hstep
      exact h.congr rfl rfl rfl
    · exact absurd hstep (by simp)
  | showCart i =>
    simp only [guardStep] at hstep
    split at hstep
    · obtain ⟨products, -, rfl⟩ := Option.map_eq_some_iff.mp hstep
      exact h.congr rfl rfl rfl
    · exact absurd hstep (by simp)
  | openModal device productId =>
    simp only [guardStep] at hstep
    split at hstep
    · obtain rfl := Option.some.inj hstep
      exact h.congr rfl rfl rfl
    · exact absurd hstep (by simp)
  | tap device n now now' =>
    simp only [guardStep] at hstep
    split at hstep
    · next productId hmodal =>
      obtain ⟨order, horder, rfl⟩ := Option.map_eq_some_iff.mp hstep
      refine h.issue rfl rfl rfl (fun uid order' hheads => ?_)
      obtain ⟨huid, hsame⟩ := Option.ite_none_right_eq_some.mp hheads
      rw [← Option.some.inj hsame, productId_of_addToCartModal horder]
      exact hC productId hmodal uid huid
    · exact absurd hstep (by simp)
  | buy device =>
    simp only [guardStep] at hstep
    split at hstep
    · obtain rfl := Option.some.inj hstep
      exact h.issue rfl rfl rfl (fun _ _ hheads => absurd hheads.symm (Option.some_ne_none _))
    · exact absurd hstep (by simp)
  | land i =>
    obtain ⟨r, hr, rfl⟩ := Option.map_eq_some_iff.mp hstep
    exact h.land (GuardState.queue_of_turn hr)
  | fail i =>
    obtain ⟨r, -, rfl⟩ := Option.map_eq_some_iff.mp hstep
    exact h.fail r
  | answer i =>
    obtain ⟨r, hr, rfl⟩ := Option.map_eq_some_iff.mp hstep
    exact h.answered hr (hC r hr)

/-- Devices just started, and carts that have each product once. -/
theorem start {carts : String → Option (List OrderModel)}
    (hcarts : ∀ uid, ∀ ls ∈ carts uid, (ls.map OrderModel.productId).Nodup)
    (authUser : ℕ → Option String) : GuardKept (.start carts authUser) := by
  refine ⟨fun uid doc hdoc => ?_, fun uid => ?_⟩
  · obtain ⟨ls, -, rfl⟩ := Option.map_eq_some_iff.mp hdoc
    exact ⟨ls, rfl⟩
  · have hcoming : (GuardState.start carts authUser).coming uid
        = (GuardState.start carts authUser).lines uid := List.append_nil _
    rw [hcoming]
    rcases hls : carts uid with _ | ls
    · have hnone : (GuardState.start carts authUser).lines uid = [] := by
        show (((carts uid).map cartDoc).bind cartItems).getD [] = []
        rw [hls]
        rfl
      rw [hnone]
      exact List.nodup_nil
    · have hdoc : (GuardState.start carts authUser).carts uid = some (cartDoc ls) := by
        show (carts uid).map cartDoc = some (cartDoc ls)
        rw [hls]
        rfl
      rw [lines_of_carts hdoc]
      exact hcarts uid ls hls

end GuardKept

/-- **One line for each product.** From carts that have each product once, in any
run of sign-ins, taps, requests that reach the store or fail, carts read and
checkouts, on any number of devices, no cart comes to have two lines of one
product, as long as what is added – by a tap, or by a second request that is for
another account than the first – is new to the cart and to what is on its way
there. -/
theorem one_line_each_of_meets (carts : String → Option (List OrderModel))
    (hcarts : ∀ uid, ∀ ls ∈ carts uid, (ls.map OrderModel.productId).Nodup)
    (authUser : ℕ → Option String) (as : List GuardAction)
    (hC : Runs.Meets guardStep NewToCart (.start carts authUser) as) :
    Runs.Along guardStep OneLineEach (.start carts authUser) as :=
  (Runs.along_of_meets (I := GuardKept) (fun _ _ _ h hC hstep => h.step hC hstep)
    (GuardKept.start hcarts authUser) hC).imp (fun _ h => h.oneLineEach)

/-- Two products added one after the other, and bought. -/
theorem one_line_each_of_meets_two :
    Runs.Along guardStep OneLineEach (.start (fun _ => none) (fun _ => none))
      [.signIn 0 "u", .openModal 0 "p", .tap 0 ⟨0, 0, 0, 1⟩ ⟨1000⟩ ⟨1000⟩, .land 0, .answer 0,
        .openModal 0 "q", .tap 0 ⟨0, 0, 0, 2⟩ ⟨2000⟩ ⟨2000⟩, .land 0, .land 0, .answer 0,
        .answer 0, .buy 0, .land 0, .answer 0, .land 0] :=
  one_line_each_of_meets (fun _ => none) (fun _ _ h => absurd h (by simp)) (fun _ => none) _
    (by decide +kernel)

/-- **A product added twice**: the button is still offered while the first line is
on its way. -/
theorem added_twice :
    ¬ ∀ carts : String → Option (List OrderModel),
      (∀ uid, ∀ ls ∈ carts uid, (ls.map OrderModel.productId).Nodup) →
      ∀ (authUser : ℕ → Option String) (as : List GuardAction),
        Runs.Along guardStep OneLineEach (.start carts authUser) as := by
  intro h
  have hlaw := h (fun _ => some [⟨"0", ⟨0⟩, .inCart, "q", 3, 0⟩])
    (fun _ ls hls => by obtain rfl := Option.some.inj hls; decide) (fun _ => none)
    [.signIn 0 "u", .openModal 0 "p", .tap 0 ⟨0, 0, 0, 1⟩ ⟨1000⟩ ⟨1000⟩, .openModal 0 "p",
      .tap 0 ⟨0, 0, 0, 1⟩ ⟨2000⟩ ⟨2000⟩, .land 0, .land 0]
  have htwice := (hlaw.last rfl) "u" (cartDoc [⟨"0", ⟨0⟩, .inCart, "q", 3, 0⟩,
    ⟨"1", ⟨1000⟩, .inCart, "p", 1, 0⟩, ⟨"2", ⟨2000⟩, .inCart, "p", 1, 0⟩])
    (by decide +kernel) _ (cartItems_cartDoc _)
  exact absurd htwice (by decide)
