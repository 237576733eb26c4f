import Enmart.Base.Dart
import Enmart.Base.Rounding
import Enmart.Firestore.Value

/-!
# Products

`ProductModel` is a product of the catalogue. Its price is a number of either
kind, and the special prices some users have are no part of what `toMap`
stores: they are a map of their own in the document, from users to prices,
in which a price removed is a null.

Decoding reads most fields through the text they print as. Texts, integers,
truth values and null print as themselves; how the other values print is a
parameter.
-/

open Firestore

/-- A number, integer or double. A double is the rational it denotes. -/
inductive Number where
  | int (n : Int64)
  | double (q : ℚ)
  deriving DecidableEq, Repr

/-- The stored form of a number. -/
def Number.toValue : Number → Value
  | int n => .int n
  | double q => .double q

/-- The number itself. -/
def Number.toRat : Number → ℚ
  | int n => n.toInt
  | double q => q

/-- The price one user has for a product. -/
structure SpecialPriceModel where
  userId : String
  price : Option Int64
  deriving DecidableEq, Repr

/-- **A product.** -/
structure ProductModel where
  id : String
  code : String
  material : String
  quantity : Int64
  price : Number
  specialUsers : List SpecialPriceModel
  deriving DecidableEq, Repr

namespace ProductModel

/-- The stored form of a product, without its special prices. -/
def toMap (p : ProductModel) : Fields :=
  [("code", .string p.code),
    ("id", .string p.id),
    ("material", .string p.material),
    ("price", p.price.toValue),
    ("quantity", .int p.quantity)]

/-- The fields are in the order of their names. -/
theorem toMap_sorted (p : ProductModel) : Fields.Sorted p.toMap := by
  have hnames : ["code", "id", "material", "price", "quantity"].Pairwise
      (fun k l => precedes k.toList l.toList = true) := by decide
  exact hnames

end ProductModel

/-! ## Reading a product -/

section Print

variable (print : Value → String)

/-- The text a value is interpolated to. -/
def interpolate : Option Value → String
  | none => "null"
  | some .null => "null"
  | some (.bool b) => toString b
  | some (.int n) => toString n.toInt
  | some (.string s) => s
  | some v => print v

/-- What `int.parse` reads in the text a value, or 0 for null, is interpolated
to: only an integer and a text can be integer literals. -/
def parseQuantity : Option Value → Option Int64
  | none => some 0
  | some .null => some 0
  | some (.int n) => intTryParse (toString n.toInt)
  | some (.string s) => intTryParse s
  | _ => none

/-- What `double.tryParse` reads in the text a value is interpolated to: a
number prints as a literal of its own, a text may be one, and no other value
prints as one. -/
def tryParsePrice : Option Value → Option ℚ
  | some (.int n) => some n.toInt
  | some (.double q) => some q
  | some (.string s) => doubleTryParse s
  | _ => none

/-- **The special prices of a document's map**: one for each user whose price is
not null, unless one of them is no integer. -/
def generateSpecialPrice : Fields → Option (List SpecialPriceModel)
  | [] => some []
  | (_, .null) :: map => generateSpecialPrice map
  | (e, .int n) :: map => (generateSpecialPrice map).map (⟨e, some n⟩ :: ·)
  | (_, _) :: _ => none

/-- The special prices a document has: none without the field. -/
def specialUsersOf : Option Value → Option (List SpecialPriceModel)
  | none => some []
  | some .null => some []
  | some v => (asMap v).bind generateSpecialPrice

/-- **The product a document stands for**, unless a field cannot be read. -/
def ProductModel.fromMap (map : Fields) : Option ProductModel := do
  let material ← asString (map.get? "material")
  let quantity ← parseQuantity (map.get? "quantity")
  let specialUsers ← specialUsersOf (map.get? "specialUsers")
  return {
    id := interpolate print (map.get? "id")
    code := interpolate print (map.get? "code")
    material := material
    quantity := quantity
    price := ((tryParsePrice (map.get? "price")).map Number.double).getD (.int 0)
    specialUsers := specialUsers }

section Decode

variable {print} {doc : Fields}

/-- **What decoding asks of a document.** -/
theorem ProductModel.fromMap_eq_some_iff {m : ProductModel} :
    ProductModel.fromMap print doc = some m
      ↔ asString (doc.get? "material") = some m.material
        ∧ parseQuantity (doc.get? "quantity") = some m.quantity
        ∧ specialUsersOf (doc.get? "specialUsers") = some m.specialUsers
        ∧ interpolate print (doc.get? "id") = m.id
        ∧ interpolate print (doc.get? "code") = m.code
        ∧ ((tryParsePrice (doc.get? "price")).map Number.double).getD (.int 0) = m.price := by
  simp only [ProductModel.fromMap, Option.bind_eq_bind, Option.bind_eq_some_iff]
  constructor
  · rintro ⟨material, hmaterial, quantity, hquantity, special, hspecial, hm⟩
    obtain rfl := Option.some.inj hm
    exact ⟨hmaterial, hquantity, hspecial, rfl, rfl, rfl⟩
  · rintro ⟨hmaterial, hquantity, hspecial, hid, hcode, hprice⟩
    refine ⟨_, hmaterial, _, hquantity, _, hspecial, ?_⟩
    rw [hid, hcode, hprice]
    rfl

/-- A document decodes where its material, its quantity and its special prices
do. -/
theorem ProductModel.isSome_fromMap_iff :
    (ProductModel.fromMap print doc).isSome
      ↔ (asString (doc.get? "material")).isSome ∧ (parseQuantity (doc.get? "quantity")).isSome
        ∧ (specialUsersOf (doc.get? "specialUsers")).isSome := by
  constructor
  · intro h
    obtain ⟨m, hm⟩ := Option.isSome_iff_exists.mp h
    obtain ⟨hmaterial, hquantity, hspecial, -⟩ := ProductModel.fromMap_eq_some_iff.mp hm
    rw [hmaterial, hquantity, hspecial]
    exact ⟨rfl, rfl, rfl⟩
  · rintro ⟨hmaterial, hquantity, hspecial⟩
    obtain ⟨material, hmaterial⟩ := Option.isSome_iff_exists.mp hmaterial
    obtain ⟨quantity, hquantity⟩ := Option.isSome_iff_exists.mp hquantity
    obtain ⟨special, hspecial⟩ := Option.isSome_iff_exists.mp hspecial
    exact Option.isSome_iff_exists.mpr ⟨⟨_, _, material, quantity, _, special⟩,
      ProductModel.fromMap_eq_some_iff.mpr ⟨hmaterial, hquantity, hspecial, rfl, rfl, rfl⟩⟩

end Decode

@[simp] theorem interpolate_string (s : String) :
    interpolate print (some (.string s)) = s := rfl

/-- A stored quantity is read back through its text. -/
@[simp] theorem parseQuantity_int (n : Int64) : parseQuantity (some (.int n)) = some n :=
  intTryParse_toString n

/-- A stored price is read back through its text. -/
@[simp] theorem tryParsePrice_toValue (x : Number) :
    tryParsePrice (some x.toValue) = some x.toRat := by
  cases x with
  | int n => rfl
  | double q => rfl

/-- **Reading what is stored of a product** gives it back, its price as a
double and without special prices. -/
theorem ProductModel.fromMap_toMap (p : ProductModel) :
    ProductModel.fromMap print p.toMap
      = some { p with price := .double p.price.toRat, specialUsers := [] } := by
  simp [fromMap, toMap, Fields.get?_cons, Fields.get?_nil, asString, specialUsersOf]

end Print

/-! ## Doubles

So far a price is the rational its text denotes. As it is held it is one a
double can have, and what is computed with it is rounded or wraps. A number too
large for a double is rounded like the others: NaN and the infinities are left
out. -/

/-- The number as it is held: a double is one of its format. -/
def Number.rounded : Number → Number
  | int n => .int n
  | double q => .double (binary64.round q)

/-- The product as it is held. -/
def ProductModel.rounded (m : ProductModel) : ProductModel := { m with price := m.price.rounded }

/-- **`ProductModel.fromMap`**, the price rounded as it is read. -/
def ProductModel.fromMapRounded (print : Value → String) (map : Fields) : Option ProductModel :=
  (ProductModel.fromMap print map).map ProductModel.rounded

/-- **`price * quantity`**: integers wrap, a double is rounded. -/
def Number.timesQuantity (p : Number) (quantity : Int64) : Number :=
  match p with
  | .int n => .int (n * quantity)
  | .double q => .double (binary64.round (q * binary64.round quantity.toInt))

section Rounded

variable {print : Value → String} {doc : Fields} {m : ProductModel}

/-- A price that is read is a double, or the 0 that stands for none. -/
theorem price_of_fromMapRounded (hm : ProductModel.fromMapRounded print doc = some m) :
    m.price = .int 0 ∨ ∃ q, m.price = .double (binary64.round q) := by
  obtain ⟨m₀, hm₀, rfl⟩ := Option.map_eq_some_iff.mp hm
  obtain ⟨-, -, -, -, -, hprice⟩ := ProductModel.fromMap_eq_some_iff.mp hm₀
  show m₀.price.rounded = _ ∨ ∃ q, m₀.price.rounded = _
  rw [← hprice]
  cases tryParsePrice (doc.get? "price") with
  | none => exact Or.inl rfl
  | some q => exact Or.inr ⟨q, rfl⟩

/-- A price that is read is a number a double can have. -/
theorem round_price (hm : ProductModel.fromMapRounded print doc = some m) :
    binary64.round m.price.toRat = m.price.toRat := by
  rcases price_of_fromMapRounded hm with hprice | ⟨q, hprice⟩
  · rw [hprice]
    exact binary64.round_zero
  · rw [hprice]
    exact binary64.round_round q

end Rounded
