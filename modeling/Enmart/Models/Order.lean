import Enmart.Base.Dart
import Enmart.Firestore.Value

/-!
# Order lines and orders

`OrderModel` is one line: a product, how many were ordered and how many have
been dispatched. A line is in a cart first and in an order later, and it
keeps its `orderId` – the millisecond it was added in – throughout.
`OrderCartModel` is an order: its lines, the totals its status is decided
from, and whose it is.

Both are stored by `toMap` and read back by `fromMap`. The encoding is
injective (`OrderModel.toMap_injective`), so comparing stored lines deeply is
comparing lines, and decoding inverts it (`OrderModel.fromMap_toMap`,
`OrderCartModel.fromMap_toMap`). Decoding accepts more than encoding
produces: a status it does not know is `pending`, and a dispatched count it
cannot read is `0`.
-/

open Firestore

/-- What has become of a line or an order. -/
inductive OrderStatus where
  | inCart
  | delivered
  | pending
  deriving DecidableEq, Repr

namespace OrderStatus

/-- The name a status is stored under. -/
def toText : OrderStatus → String
  | .inCart => "OrderStatus.inCart"
  | .delivered => "OrderStatus.delivered"
  | .pending => "OrderStatus.pending"

end OrderStatus

/-- The status a stored name stands for; an unknown name is `pending`. -/
def stringToStatusEnum (value : String) : OrderStatus :=
  if value = "OrderStatus.inCart" then .inCart
  else if value = "OrderStatus.delivered" then .delivered
  else if value = "OrderStatus.pending" then .pending
  else .pending

/-- A status is read back from its name. -/
@[simp] theorem stringToStatusEnum_toText (s : OrderStatus) :
    stringToStatusEnum s.toText = s := by
  cases s <;> decide

/-! ## Lines -/

/-- **A line of a cart or of an order.** -/
structure OrderModel where
  /-- The line's own identifier. -/
  orderId : String
  /-- When the line was added. -/
  successAt : DateTime
  /-- The line's status. -/
  status : OrderStatus
  /-- The product the line is for. -/
  productId : String
  /-- How many were ordered. -/
  quantity : Int64
  /-- How many have been dispatched. -/
  dispatched : Int64
  deriving DecidableEq, Repr

namespace OrderModel

/-- The stored form of a line. -/
def toMap (o : OrderModel) : Value :=
  .map [("dispatched", .int o.dispatched),
    ("orderId", .string o.orderId),
    ("productId", .string o.productId),
    ("quantity", .int o.quantity),
    ("status", .string o.status.toText),
    ("successAt", .timestamp o.successAt.toTimestamp)]

/-- What `int.tryParse` reads in the text a value is interpolated to: only
an integer and a text can be integer literals, no other value prints as
one. -/
def tryParseInterpolated : Option Value → Option Int64
  | some (.int n) => intTryParse (toString n.toInt)
  | some (.string s) => intTryParse s
  | _ => none

/-- A stored integer is read back through its text. -/
@[simp] theorem tryParseInterpolated_int (n : Int64) :
    tryParseInterpolated (some (.int n)) = some n := intTryParse_toString n

/-- The line a stored form stands for, unless a field cannot be read. -/
def fromMap (map : Fields) : Option OrderModel := do
  let orderId ← asString (map.get? "orderId")
  let successAt ← asTimestamp (map.get? "successAt")
  let status ← asString (map.get? "status")
  let productId ← asString (map.get? "productId")
  let quantity ← asInt (map.get? "quantity")
  return {
    orderId := orderId
    successAt := .ofTimestamp successAt
    status := stringToStatusEnum status
    productId := productId
    quantity := quantity
    dispatched := (tryParseInterpolated (map.get? "dispatched")).getD 0 }

/-- The line an array element stands for, if it is a map that decodes. -/
def ofValue (v : Value) : Option OrderModel := (asMap v).bind fromMap

/-- **Decoding a line inverts encoding it.** -/
@[simp] theorem ofValue_toMap (o : OrderModel) : ofValue o.toMap = some o := by
  simp [ofValue, asMap, toMap, fromMap, Fields.get?_cons, asString, asInt,
    asTimestamp]

/-- **Stored lines are deeply equal only if the lines are equal.** -/
theorem toMap_injective : Function.Injective toMap := by
  intro a b h
  have hab := congrArg ofValue h
  rw [ofValue_toMap, ofValue_toMap] at hab
  exact Option.some.inj hab

/-- The line with another dispatched count. -/
def withDispatched (o : OrderModel) (d : Int64) : OrderModel :=
  { o with dispatched := d }

@[simp] theorem withDispatched_orderId (o : OrderModel) (d : Int64) :
    (o.withDispatched d).orderId = o.orderId := rfl

@[simp] theorem withDispatched_quantity (o : OrderModel) (d : Int64) :
    (o.withDispatched d).quantity = o.quantity := rfl

@[simp] theorem withDispatched_dispatched (o : OrderModel) (d : Int64) :
    (o.withDispatched d).dispatched = d := rfl

end OrderModel

/-! ## Orders -/

/-- **An order.** -/
structure OrderCartModel where
  /-- The order's identifier, which is its document's key. -/
  id : String
  /-- The customer whose order it is. -/
  uid : String
  /-- When it was placed. -/
  orderedAt : DateTime
  /-- Its lines. -/
  items : List OrderModel
  /-- Its status. -/
  status : OrderStatus
  /-- How many pieces were ordered, over all lines. -/
  totalQuantity : Int64
  /-- How many pieces have been dispatched, over all lines. -/
  deliveredQuantity : Int64
  deriving DecidableEq, Repr

namespace OrderCartModel

/-- The stored form of an order. -/
def toMap (m : OrderCartModel) : Fields :=
  [("deliveredQuantity", .int m.deliveredQuantity),
    ("id", .string m.id),
    ("items", .array (m.items.map OrderModel.toMap)),
    ("orderedAt", .timestamp m.orderedAt.toTimestamp),
    ("status", .string m.status.toText),
    ("totalQuantity", .int m.totalQuantity),
    ("uid", .string m.uid)]

/-- The order a document stands for, unless a field cannot be read. -/
def fromMap (map : Fields) : Option OrderCartModel := do
  let status ← asString (map.get? "status")
  let uid ← asString (map.get? "uid")
  let id ← asString (map.get? "id")
  let orderedAt ← asTimestamp (map.get? "orderedAt")
  let items ← (← asArray (map.get? "items")).mapM OrderModel.ofValue
  let totalQuantity ← asInt (map.get? "totalQuantity")
  let deliveredQuantity ← asInt (map.get? "deliveredQuantity")
  return {
    status := stringToStatusEnum status
    uid := uid
    id := id
    orderedAt := .ofTimestamp orderedAt
    items := items
    totalQuantity := totalQuantity
    deliveredQuantity := deliveredQuantity }

/-- The fields are in the order of their names. -/
theorem toMap_sorted (m : OrderCartModel) : Fields.Sorted m.toMap := by
  have hnames : ["deliveredQuantity", "id", "items", "orderedAt", "status", "totalQuantity",
      "uid"].Pairwise
      (fun k l => precedes k.toList l.toList = true) := by decide
  exact hnames

/-- The stored order with other lines. -/
theorem toMap_set_items (m : OrderCartModel) (items : List OrderModel) :
    Fields.set m.toMap "items" (.array (items.map OrderModel.toMap))
      = { m with items := items : OrderCartModel }.toMap := by
  rw [Fields.set_of_mem m.toMap_sorted _ (by simp [toMap])]
  simp [toMap]

/-- The stored order with another delivered quantity. -/
theorem toMap_set_deliveredQuantity (m : OrderCartModel) (n : Int64) :
    Fields.set m.toMap "deliveredQuantity" (.int n)
      = { m with deliveredQuantity := n : OrderCartModel }.toMap := by
  rw [Fields.set_of_mem m.toMap_sorted _ (by simp [toMap])]
  simp [toMap]

/-- The stored order with another status. -/
theorem toMap_set_status (m : OrderCartModel) (status : OrderStatus) :
    Fields.set m.toMap "status" (.string status.toText)
      = { m with status := status : OrderCartModel }.toMap := by
  rw [Fields.set_of_mem m.toMap_sorted _ (by simp [toMap])]
  simp [toMap]

/-- **Decoding an order inverts encoding it.** -/
@[simp] theorem fromMap_toMap (m : OrderCartModel) :
    fromMap m.toMap = some m := by
  have hitems : (m.items.map OrderModel.toMap).mapM OrderModel.ofValue
      = some m.items := mapM_map_of_leftInverse OrderModel.ofValue_toMap _
  simp [fromMap, toMap, Fields.get?_cons, asString, asInt, asTimestamp,
    asArray, hitems]

/-- What is read in the document of an order is read of the order. -/
theorem exists_fromMap_toMap (m : OrderCartModel) (P : OrderCartModel → Prop) :
    (∃ m', fromMap m.toMap = some m' ∧ P m') ↔ P m := by
  rw [fromMap_toMap]
  constructor
  · rintro ⟨m', hm', h⟩
    obtain rfl := Option.some.inj hm'
    exact h
  · intro h
    exact ⟨m, rfl, h⟩

/-- Orders stored alike are equal. -/
theorem toMap_injective : Function.Injective toMap := by
  intro a b h
  have hab := congrArg fromMap h
  rw [fromMap_toMap, fromMap_toMap] at hab
  exact Option.some.inj hab

end OrderCartModel
