import Enmart.Cart.Checkout
import Enmart.Firestore.Write

/-!
# The cart and its document

`CartProvider` keeps the lines of the cart twice: in a list on the device and
in the user's cart document, one array field. A line is added to the document
by patching it, or, where there is none yet, by putting a new one; the list
is read from the document when the app starts for a customer, provided there
is a document to read.
-/

open Firestore SetArray

/-- The write that adds a line to the cart document. -/
def addToCartWrite (order : OrderModel) : Update :=
  [("items", .arrayUnion [order.toMap])]

/-- The cart document of some lines. -/
def cartDoc (items : List OrderModel) : Fields :=
  [("items", .array (items.map OrderModel.toMap))]

/-- The lines a cart document holds, unless one of them cannot be read. -/
def cartItems (doc : Fields) : Option (List OrderModel) := do
  (← asArray (doc.get? "items")).mapM OrderModel.ofValue

/-- **`CartProvider.initialize`**: the list is replaced by the lines of the
document, and left as it is where there is no document. -/
def initializeCart (products : List OrderModel) : Option Fields → Option (List OrderModel)
  | some doc => cartItems doc
  | none => some products

/-- The lines put in a cart document are read from it. -/
@[simp] theorem cartItems_cartDoc (items : List OrderModel) :
    cartItems (cartDoc items) = some items := by
  have hitems : (items.map OrderModel.toMap).mapM OrderModel.ofValue = some items :=
    mapM_map_of_leftInverse OrderModel.ofValue_toMap items
  simp [cartItems, cartDoc, Fields.get?_cons, asArray, hitems]

/-- **Adding a line to a cart document** appends it, unless an equal one is
there. -/
theorem patch_addToCartWrite (items : List OrderModel) (order : OrderModel) :
    (cartDoc items).patch (addToCartWrite order) = cartDoc (union items [order]) := by
  have hitems : union (items.map OrderModel.toMap) [order.toMap]
      = (union items [order]).map OrderModel.toMap :=
    union_map OrderModel.toMap_injective items [order]
  simp [Fields.patch, addToCartWrite, cartDoc, FieldValue.apply, Fields.get?_cons,
    Fields.set, hitems]

/-- Putting a line in place of whatever was there leaves the document of that
line alone. -/
theorem ofUpdate_addToCartWrite (order : OrderModel) :
    Fields.ofUpdate (addToCartWrite order) = cartDoc [order] := by
  have hnone : Fields.get? [] "items" = none := rfl
  have hitems : union [] [order.toMap] = [order.toMap] := rfl
  simp [Fields.ofUpdate, Fields.patch, addToCartWrite, cartDoc, FieldValue.apply,
    Fields.set, elements, hnone, hitems]

/-- The cart document after `addToCart`, all of whose requests succeed: there is
a document to patch, or one is put. -/
def cartAdded (order : OrderModel) : Option Fields → Fields
  | some doc => Fields.patch doc (addToCartWrite order)
  | none => Fields.ofUpdate (addToCartWrite order)

/-- **The lines of a cart after `addToCart`** are those it had and the new
one. -/
theorem cartAdded_eq {cart : Option Fields} (order : OrderModel)
    (hcart : cart = none ∨ ∃ ls, cart = some (cartDoc ls)) :
    cartAdded order cart = cartDoc (union ((cart.bind cartItems).getD []) [order]) := by
  rcases hcart with rfl | ⟨ls, rfl⟩
  · exact ofUpdate_addToCartWrite order
  · rw [Option.bind_some, cartItems_cartDoc]
    exact patch_addToCartWrite ls order
