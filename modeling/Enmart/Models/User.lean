import Enmart.Base.Dart
import Enmart.Firestore.Value

/-!
# Users

`UserModel` is what the users collection holds of a customer. Registration
writes one that is not approved; a document that does not say whether its
user is approved is read as one that is not.
-/

open Firestore

/-- **A user.** -/
structure UserModel where
  email : String
  uid : String
  fullName : String
  address : String
  isApproved : Bool
  createdAt : DateTime
  deriving DecidableEq, Repr

namespace UserModel

/-- The stored form of a user. -/
def toMap (u : UserModel) : Fields :=
  [("address", .string u.address),
    ("createdAt", .timestamp u.createdAt.toTimestamp),
    ("email", .string u.email),
    ("fullName", .string u.fullName),
    ("isApproved", .bool u.isApproved),
    ("uid", .string u.uid)]

/-- Whether a user is approved: `false` where the field is absent or null. -/
def approvedOf : Option Value → Option Bool
  | none => some false
  | some .null => some false
  | v => asBool v

/-- The user a document stands for, unless a field cannot be read. -/
def fromMap (map : Fields) : Option UserModel := do
  let email ← asString (map.get? "email")
  let uid ← asString (map.get? "uid")
  let fullName ← asString (map.get? "fullName")
  let address ← asString (map.get? "address")
  let isApproved ← approvedOf (map.get? "isApproved")
  let createdAt ← asTimestamp (map.get? "createdAt")
  return {
    email := email
    uid := uid
    fullName := fullName
    address := address
    isApproved := isApproved
    createdAt := .ofTimestamp createdAt }

/-- The fields are in the order of their names. -/
theorem toMap_sorted (u : UserModel) : Fields.Sorted u.toMap := by
  have hnames : ["address", "createdAt", "email", "fullName", "isApproved",
      "uid"].Pairwise
      (fun k l => precedes k.toList l.toList = true) := by decide
  exact hnames

/-- **Decoding a user inverts encoding it.** -/
@[simp] theorem fromMap_toMap (u : UserModel) : fromMap u.toMap = some u := by
  simp [fromMap, toMap, Fields.get?_cons, asString, approvedOf, asBool, asTimestamp]

end UserModel
