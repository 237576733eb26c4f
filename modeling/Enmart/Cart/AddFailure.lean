import Enmart.Cart.Provider

/-!
# An add whose requests fail

`addToCart` patches the cart document and appends the line to the list on the
device. If the patch is refused as *not found* it puts a document instead;
if it fails in any other way the exception goes no further, and the line is
appended all the same. If the document that is put fails, the exception leaves
`addToCart` and nothing is appended.

So the list and the document part exactly when the patch fails with another
code than *not found* (`carts_agree_iff`) – and checkout orders the list.
-/

open Firestore SetArray

/-- **The two carts of a customer**: the document and the list. -/
structure Carts where
  cart : Option Fields
  products : List OrderModel

/-- How the requests of one `addToCart` go. -/
structure AddOutcome where
  /-- The code the patch fails with, apart from a document that is not
  there. -/
  update : Option String
  /-- Whether a document that is put fails. -/
  setFails : Bool
  deriving DecidableEq, Repr

/-- The code the patch fails with, if it fails: without a document it is *not
found*. -/
def AddOutcome.code (r : AddOutcome) : Option Fields → Option String
  | some _ => r.update
  | none => some (r.update.getD "not-found")

/-- **`addToCart`**, as far as it gets. -/
def addToCart (order : OrderModel) (s : Carts) (r : AddOutcome) : Carts :=
  match r.code s.cart with
  | none => {
      cart := s.cart.map (fun doc => Fields.patch doc (addToCartWrite order))
      products := s.products ++ [order] }
  | some code =>
    if code = "not-found" then
      -- an exception here leaves the function before the list is reached
      if r.setFails then s
      else {
        cart := some (Fields.ofUpdate (addToCartWrite order))
        products := s.products ++ [order] }
    else { s with products := s.products ++ [order] }

/-- **The list holds what the document holds**; without a document it is
empty. -/
def InSync (s : Carts) : Prop :=
  match s.cart with
  | some doc => cartItems doc = some s.products
  | none => s.products = []

/-- The document holds a line. -/
def InDocument (order : OrderModel) (cart : Option Fields) : Prop :=
  ∃ items, cart.bind cartItems = some items ∧ order ∈ items

/-- The patch does not fail, or as *not found*. -/
def AddOutcome.HandlesFailure (r : AddOutcome) : Prop :=
  ∀ code, r.update = some code → code = "not-found"

section Adding

variable {s : Carts} {order : OrderModel} {r : AddOutcome}

/-- A line that is not in a document is appended to its lines. -/
theorem cartItems_patch {doc : Fields} {items : List OrderModel}
    (hdoc : cartItems doc = some items) (hnew : order ∉ items) :
    cartItems (Fields.patch doc (addToCartWrite order)) = some (items ++ [order]) := by
  obtain ⟨vs, hvs, hitems⟩ := Option.bind_eq_some_iff.mp hdoc
  have hget : Fields.get? (Fields.patch doc (addToCartWrite order)) "items"
      = some (.array (union vs [order.toMap])) := by
    show Fields.get? (doc.set "items" (.array (union (elements (doc.get? "items")) _))) "items" = _
    rw [Fields.get?_set, if_pos rfl, asArray_eq_some.mp hvs]
    rfl
  have hfresh : order.toMap ∉ vs := by
    intro hmem
    obtain ⟨o, ho, hdec⟩ := exists_of_mem_mapM hitems hmem
    rw [OrderModel.ofValue_toMap] at hdec
    exact hnew (Option.some.inj hdec ▸ ho)
  show (asArray (Fields.get? _ "items")).bind _ = _
  rw [hget, union_of_notMem hfresh]
  show (vs ++ [order.toMap]).mapM OrderModel.ofValue = _
  rw [List.mapM_append, hitems, List.mapM_cons, OrderModel.ofValue_toMap]
  rfl

/-- A document in step with the list holds a line exactly if the list does. -/
theorem InSync.inDocument_iff (h : InSync s) (order : OrderModel) :
    InDocument order s.cart ↔ order ∈ s.products := by
  obtain ⟨cart, products⟩ := s
  cases cart with
  | none =>
    obtain rfl : products = [] := h
    exact iff_of_false (fun hc => absurd hc (by simp [InDocument])) List.not_mem_nil
  | some doc =>
    have hdoc : cartItems doc = some products := h
    constructor
    · rintro ⟨items, hitems, hmem⟩
      obtain rfl := Option.some.inj (hdoc.symm.trans hitems)
      exact hmem
    · intro hmem
      exact ⟨products, hdoc, hmem⟩

/-- The document that is put holds its line. -/
theorem inDocument_ofUpdate (order : OrderModel) :
    InDocument order (some (Fields.ofUpdate (addToCartWrite order))) := by
  refine ⟨[order], ?_, List.mem_singleton.mpr rfl⟩
  rw [ofUpdate_addToCartWrite]
  exact cartItems_cartDoc [order]

/-- **Where the patch fails as *not found***, the line is put on both sides, or
on neither. -/
theorem agree_of_notFound (h : InSync s) (hcode : r.code s.cart = some "not-found") :
    order ∈ (addToCart order s r).products
      ↔ InDocument order (addToCart order s r).cart := by
  unfold addToCart
  rw [hcode]
  show order ∈ Carts.products (if r.setFails = true then s else _)
    ↔ InDocument order (Carts.cart (if r.setFails = true then s else _))
  by_cases hset : r.setFails = true
  · rw [if_pos hset]
    exact (h.inDocument_iff order).symm
  · rw [if_neg hset]
    exact iff_of_true (List.mem_append_right _ (List.mem_singleton.mpr rfl))
      (inDocument_ofUpdate order)

/-- **Where the patch succeeds**, the line is put on both sides. -/
theorem agree_of_patched (h : InSync s) (hnew : order ∉ s.products)
    (hcode : r.code s.cart = none) :
    order ∈ (addToCart order s r).products
      ↔ InDocument order (addToCart order s r).cart := by
  obtain ⟨cart, products⟩ := s
  unfold addToCart
  rw [hcode]
  cases cart with
  | none => exact absurd hcode (by simp [AddOutcome.code])
  | some doc =>
    have hdoc : cartItems doc = some products := h
    exact iff_of_true (List.mem_append_right _ (List.mem_singleton.mpr rfl))
      ⟨products ++ [order], cartItems_patch hdoc hnew,
        List.mem_append_right _ (List.mem_singleton.mpr rfl)⟩

/-- **Where the patch fails in another way**, the line is put on the list
only. -/
theorem disagree_of_failed (h : InSync s) (hnew : order ∉ s.products) {code : String}
    (hcode : r.code s.cart = some code) (hne : code ≠ "not-found") :
    order ∈ (addToCart order s r).products
      ∧ ¬ InDocument order (addToCart order s r).cart := by
  unfold addToCart
  rw [hcode]
  show order ∈ Carts.products (if code = "not-found" then _ else _)
    ∧ ¬ InDocument order (Carts.cart (if code = "not-found" then _ else _))
  rw [if_neg hne]
  exact ⟨List.mem_append_right _ (List.mem_singleton.mpr rfl),
    fun hc => hnew ((h.inDocument_iff order).mp hc)⟩

end Adding

/-- **When a failed add leaves the carts in agreement.** From any cart whose
list holds what its document holds, for any line that is not in it, and however
the requests go: after `addToCart` has ended the list has the line exactly if
the document has it – unless, and only unless, the patch fails with another
code than *not found*. -/
theorem carts_agree_iff (s : Carts) (order : OrderModel) (r : AddOutcome) (h : InSync s)
    (hnew : order ∉ s.products) :
    (order ∈ (addToCart order s r).products ↔ InDocument order (addToCart order s r).cart)
      ↔ r.HandlesFailure := by
  constructor
  · intro hagree code hupdate
    by_contra hne
    have hcode : r.code s.cart = some code := by
      unfold AddOutcome.code
      split
      · exact hupdate
      · rw [hupdate]
        rfl
    obtain ⟨hlist, hdoc⟩ := disagree_of_failed h hnew hcode hne
    exact hdoc (hagree.mp hlist)
  · intro hhandles
    rcases hcode : r.code s.cart with _ | code
    · exact agree_of_patched h hnew hcode
    · -- the patch itself failed as not found, or there was nothing to patch
      have hnotFound : code = "not-found" := by
        unfold AddOutcome.code at hcode
        split at hcode
        · exact hhandles code hcode
        · rcases hupdate : r.update with _ | c
          · rw [hupdate] at hcode
            exact (Option.some.inj hcode).symm
          · rw [hupdate] at hcode
            rw [← Option.some.inj hcode]
            exact hhandles c hupdate
      rw [hnotFound] at hcode
      exact agree_of_notFound h hcode

/-- The law at work: a second line is added to a cart, and put in its document. -/
theorem carts_agree_iff_second :
    (cartLine "2" 3
          ∈ (addToCart (cartLine "2" 3) ⟨some (cartDoc [cartLine "1" 1]), [cartLine "1" 1]⟩
            ⟨none, false⟩).products
        ↔ InDocument (cartLine "2" 3)
          (addToCart (cartLine "2" 3) ⟨some (cartDoc [cartLine "1" 1]), [cartLine "1" 1]⟩
            ⟨none, false⟩).cart)
      ↔ AddOutcome.HandlesFailure ⟨none, false⟩ :=
  carts_agree_iff ⟨some (cartDoc [cartLine "1" 1]), [cartLine "1" 1]⟩ (cartLine "2" 3) ⟨none, false⟩
    (cartItems_cartDoc [cartLine "1" 1]) (by decide)

/-- **A line in the list only**: the service is unavailable when the line is to
be put in the document. -/
theorem unavailable_line_kept :
    InSync ⟨some (cartDoc []), []⟩
      ∧ ¬ (cartLine "1" 1
          ∈ (addToCart (cartLine "1" 1) ⟨some (cartDoc []), []⟩ ⟨some "unavailable", false⟩).products
        ↔ InDocument (cartLine "1" 1)
          (addToCart (cartLine "1" 1) ⟨some (cartDoc []), []⟩ ⟨some "unavailable", false⟩).cart) := by
  have hsync : InSync ⟨some (cartDoc []), []⟩ := cartItems_cartDoc []
  refine ⟨hsync, fun hagree => ?_⟩
  have hnew : cartLine "1" 1 ∉ ([] : List OrderModel) := List.not_mem_nil
  obtain ⟨hlist, hdoc⟩ := disagree_of_failed (r := ⟨some "unavailable", false⟩) hsync hnew rfl
    (by decide)
  exact hdoc (hagree.mp hlist)
