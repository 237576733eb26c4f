import Enmart.Base.Runs
import Enmart.Firestore.Write
import Enmart.Models.Order

/-!
# Dispatching pieces of an order line

An administrator opens `QuantityUpdate` on a line of an order shown to him,
types an amount, and `updateDispatchAmount` books it – in two writes to the
order's document. The first removes the line, by deep equality with the copy
the dialog holds. The second appends the line with its new dispatched count,
increments the order's delivered quantity by the amount and sets its status,
which it decides from the totals the dialog holds.

The writes are given as the store sees them, on documents; followed on the
order a document stands for, they are `OrderCartModel.removeLine` and
`OrderCartModel.addLine` (`OrderCartModel.patch_removeWrite`,
`OrderCartModel.patch_addWrite`), so a document that encodes an order encodes
one after each of the two.
-/

open Firestore

/-- **A call of `updateDispatchAmount`**: its line, the amount, and the
totals of the order as the caller knows them. -/
structure DispatchCall where
  /-- The line, as the caller holds it. -/
  order : OrderModel
  /-- How many pieces are dispatched. -/
  dispatched : Int64
  /-- The pieces ordered, over all lines. -/
  totalCartQuantity : Int64
  /-- The pieces dispatched before, over all lines. -/
  totalDispatchedCartQuantity : Int64
  deriving DecidableEq, Repr

namespace DispatchCall

/-- The first write: the line is taken out of the document. -/
def removeWrite (c : DispatchCall) : Update :=
  [("items", .arrayRemove [c.order.toMap])]

/-- The line with the amount booked, as the call holds it after the first
write. -/
def dispatchedOrder (c : DispatchCall) : OrderModel :=
  c.order.withDispatched (c.order.dispatched + c.dispatched)

/-- The status the call computes. -/
def status (c : DispatchCall) : OrderStatus :=
  -- both totals are those of the order the dialog was opened on
  if c.totalCartQuantity = c.totalDispatchedCartQuantity + c.dispatched then
    .delivered
  else .pending

/-- The second write: the line is put back, the delivered quantity
incremented and the status set. -/
def addWrite (c : DispatchCall) : Update :=
  [("items", .arrayUnion [c.dispatchedOrder.toMap]),
    ("deliveredQuantity", .increment c.dispatched),
    ("status", .value (.string c.status.toText))]

end DispatchCall

/-- **`updateDispatchAmount`**, both writes landing one after the other. -/
def updateDispatchAmount (c : DispatchCall) (doc : Fields) : Fields :=
  (doc.patch c.removeWrite).patch c.addWrite

/-! ## The dialog -/

/-- **An open dialog**: the line it was opened on and the order it was shown
in, as they were read. -/
structure QuantityUpdate where
  /-- The line. -/
  e : OrderModel
  /-- The order. -/
  m : OrderCartModel
  deriving DecidableEq, Repr

namespace QuantityUpdate

/-- The call the dialog makes for an amount. -/
def call (d : QuantityUpdate) (dispatched : Int64) : DispatchCall where
  order := d.e
  dispatched := dispatched
  totalCartQuantity := d.m.totalQuantity
  totalDispatchedCartQuantity := d.m.deliveredQuantity

/-- The call the dialog makes for the text typed: a text that is no integer
raises an exception before anything is written. -/
def updateMethod (d : QuantityUpdate) (text : String) : Option DispatchCall :=
  (intTryParse text).map d.call

end QuantityUpdate

/-- Whether an administrator is offered the dialog on a line. -/
def dispatchOffered (e : OrderModel) : Bool := e.dispatched ≠ e.quantity

/-! ## The writes, on the order -/

namespace OrderCartModel

/-- The order without the elements equal to a line. -/
def removeLine (m : OrderCartModel) (o : OrderModel) : OrderCartModel :=
  { m with items := SetArray.remove m.items [o] }

/-- The order with a call's line put back and its amount booked. -/
def addLine (m : OrderCartModel) (c : DispatchCall) : OrderCartModel :=
  { m with
    items := SetArray.union m.items [c.dispatchedOrder]
    deliveredQuantity := safeIncrement m.deliveredQuantity c.dispatched
    status := c.status }

/-- The order after a whole call. -/
def dispatch (m : OrderCartModel) (c : DispatchCall) : OrderCartModel :=
  (m.removeLine c.order).addLine c

@[simp] theorem addLine_items (m : OrderCartModel) (c : DispatchCall) :
    (m.addLine c).items = SetArray.union m.items [c.dispatchedOrder] := rfl

/-- The lines of a stored order. -/
theorem get?_items (m : OrderCartModel) :
    Fields.get? m.toMap "items" = some (.array (m.items.map OrderModel.toMap)) := by
  simp [toMap, Fields.get?_cons]

/-- The delivered quantity of a stored order. -/
theorem get?_deliveredQuantity (m : OrderCartModel) :
    Fields.get? m.toMap "deliveredQuantity" = some (.int m.deliveredQuantity) := by
  simp [toMap, Fields.get?_cons]

/-- **The first write removes the line from the order.** -/
theorem patch_removeWrite (m : OrderCartModel) (c : DispatchCall) :
    Fields.patch m.toMap c.removeWrite = (m.removeLine c.order).toMap := by
  have hitems : SetArray.remove (m.items.map OrderModel.toMap) [c.order.toMap]
      = (SetArray.remove m.items [c.order]).map OrderModel.toMap :=
    SetArray.remove_map OrderModel.toMap_injective m.items [c.order]
  unfold Fields.patch DispatchCall.removeWrite
  rw [List.foldl_cons, List.foldl_nil, get?_items]
  simp only [FieldValue.apply, elements_array, hitems]
  exact toMap_set_items m _

/-- **The second write puts the line back and books the amount.** -/
theorem patch_addWrite (m : OrderCartModel) (c : DispatchCall) :
    Fields.patch m.toMap c.addWrite = (m.addLine c).toMap := by
  have hitems : SetArray.union (m.items.map OrderModel.toMap) [c.dispatchedOrder.toMap]
      = (SetArray.union m.items [c.dispatchedOrder]).map OrderModel.toMap :=
    SetArray.union_map OrderModel.toMap_injective m.items [c.dispatchedOrder]
  unfold Fields.patch DispatchCall.addWrite
  rw [List.foldl_cons, List.foldl_cons, List.foldl_cons, List.foldl_nil, get?_items,
    get?_deliveredQuantity]
  simp only [FieldValue.apply, elements_array, hitems]
  rw [toMap_set_items, toMap_set_deliveredQuantity, toMap_set_status]
  rfl

/-- **A whole call, on the order its document stands for.** -/
theorem updateDispatchAmount_toMap (m : OrderCartModel) (c : DispatchCall) :
    updateDispatchAmount c m.toMap = (m.dispatch c).toMap := by
  rw [updateDispatchAmount, patch_removeWrite, patch_addWrite, dispatch]

end OrderCartModel
