import Enmart.Base.Dart
import Enmart.Firestore.Value

/-!
# Requests for new products

`NDPModel` is a customer's request that a new product be developed: the
entries of a form, an image, and when it was made. Unlike the other models it
stores its date as a number of milliseconds.
-/

open Firestore

/-- **A request for a new product.** -/
structure NDPModel where
  ofc : String
  input : String
  quality : String
  packing : String
  embossing : String
  decoration : String
  coating : String
  printing : String
  frosting : String
  hfs : String
  other : String
  moq : String
  annualRequirement : String
  imgUrl : String
  remarks : String
  uid : String
  dateTime : DateTime
  deriving DecidableEq, Repr

namespace NDPModel

/-- The stored form of a request. -/
def toMap (m : NDPModel) : Fields :=
  [("annualRequirement", .string m.annualRequirement),
    ("coating", .string m.coating),
    ("dateTime", .int (.ofInt m.dateTime.millisecondsSinceEpoch)),
    ("decoration", .string m.decoration),
    ("embossing", .string m.embossing),
    ("frosting", .string m.frosting),
    ("hfs", .string m.hfs),
    ("imgUrl", .string m.imgUrl),
    ("input", .string m.input),
    ("moq", .string m.moq),
    ("ofc", .string m.ofc),
    ("other", .string m.other),
    ("packing", .string m.packing),
    ("printing", .string m.printing),
    ("quality", .string m.quality),
    ("remarks", .string m.remarks),
    ("uid", .string m.uid)]

/-- The fields are in the order of their names. -/
theorem toMap_sorted (m : NDPModel) : Fields.Sorted m.toMap := by
  have hnames : ["annualRequirement", "coating", "dateTime", "decoration", "embossing", "frosting",
      "hfs", "imgUrl", "input", "moq", "ofc", "other", "packing", "printing", "quality",
      "remarks", "uid"].Pairwise
      (fun k l => precedes k.toList l.toList = true) := by decide
  exact hnames

/-- The request a document stands for, unless a field cannot be read. -/
def fromMap (map : Fields) : Option NDPModel := do
  let ofc ← asString (map.get? "ofc")
  let input ← asString (map.get? "input")
  let quality ← asString (map.get? "quality")
  let packing ← asString (map.get? "packing")
  let embossing ← asString (map.get? "embossing")
  let decoration ← asString (map.get? "decoration")
  let coating ← asString (map.get? "coating")
  let printing ← asString (map.get? "printing")
  let frosting ← asString (map.get? "frosting")
  let hfs ← asString (map.get? "hfs")
  let other ← asString (map.get? "other")
  let moq ← asString (map.get? "moq")
  let annualRequirement ← asString (map.get? "annualRequirement")
  let imgUrl ← asString (map.get? "imgUrl")
  let remarks ← asString (map.get? "remarks")
  let uid ← asString (map.get? "uid")
  let dateTime ← (asInt (map.get? "dateTime")).bind DateTime.fromMillisecondsSinceEpoch
  return {
    ofc := ofc
    input := input
    quality := quality
    packing := packing
    embossing := embossing
    decoration := decoration
    coating := coating
    printing := printing
    frosting := frosting
    hfs := hfs
    other := other
    moq := moq
    annualRequirement := annualRequirement
    imgUrl := imgUrl
    remarks := remarks
    uid := uid
    dateTime := dateTime }

/-- **Decoding a request inverts encoding it**, but for the microseconds the
date was made with. -/
theorem fromMap_toMap (m : NDPModel) (h : m.dateTime.InRange) :
    fromMap m.toMap
      = some { m with dateTime := ⟨1000 * m.dateTime.millisecondsSinceEpoch⟩ } := by
  simp [fromMap, toMap, Fields.get?_cons, asString, asInt,
    DateTime.fromMillisecondsSinceEpoch_ofInt h]

/-- The entries of the form, as `proceedUpload` checks them. -/
def entries (m : NDPModel) : List String :=
  [m.ofc, m.input, m.quality, m.packing, m.embossing, m.decoration, m.coating, m.printing,
    m.frosting, m.hfs, m.other, m.moq, m.annualRequirement, m.remarks]

end NDPModel
