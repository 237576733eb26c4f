import Enmart.Firestore.SetAll

/-!
# What a write does to a document the client holds

The client shows a document as it will be when the writes it has sent have been
made. A write is a mutation of the document: it sets the document, patches some of
its fields or deletes it, on a condition (`Mutation.applyToLocalView`). The fields
that are patched are kept in a mask, as long as there has been nothing but patches;
what has become of them is itself a mutation, the *overlay*, which makes the
document of what the server has (`calculateOverlayMutation`).
-/

namespace Firestore

/-! ## Documents -/

/-- The instant of a version. -/
abbrev SnapshotVersion := Timestamp

/-- The version of a document that has none. -/
def SnapshotVersion.none : SnapshotVersion := ⟨0⟩

/-- What is known of a document. -/
inductive DocumentType where
  /-- Nothing. -/
  | invalid
  | foundDocument
  | noDocument
  /-- It exists, with fields that are not known. -/
  | unknownDocument
  deriving DecidableEq

/-- Where what is known is from. -/
inductive DocumentState where
  | hasLocalMutations
  | hasCommittedMutations
  | synced
  deriving DecidableEq

/-- **A document, as the client holds it.** -/
structure MutableDocument where
  documentType : DocumentType
  version : SnapshotVersion
  value : Fields
  documentState : DocumentState

namespace MutableDocument

/-- A document of which nothing is known. -/
def invalidDocument : MutableDocument := ⟨.invalid, .none, [], .synced⟩

def isFoundDocument (doc : MutableDocument) : Bool := doc.documentType = .foundDocument

def isNoDocument (doc : MutableDocument) : Bool := doc.documentType = .noDocument

def hasLocalMutations (doc : MutableDocument) : Bool := doc.documentState = .hasLocalMutations

def convertToFoundDocument (_ : MutableDocument) (version : SnapshotVersion) (value : Fields) :
    MutableDocument := ⟨.foundDocument, version, value, .synced⟩

def convertToNoDocument (_ : MutableDocument) (version : SnapshotVersion) : MutableDocument :=
  ⟨.noDocument, version, [], .synced⟩

def setHasLocalMutations (doc : MutableDocument) : MutableDocument :=
  { doc with documentState := .hasLocalMutations, version := .none }

end MutableDocument

/-- What a write may ask of the document it is made of. -/
inductive Precondition where
  | none
  | exists (present : Bool)
  | updateTime (version : SnapshotVersion)

/-- Whether the document is as the write asks. -/
def Precondition.isValidFor (p : Precondition) (doc : MutableDocument) : Bool :=
  match p with
  | .updateTime version => doc.isFoundDocument && doc.version = version
  | .exists present => present = doc.isFoundDocument
  | .none => true

/-! ## Transforms -/

/-- A number of the store. -/
inductive NumericValue where
  | integer (n : Int64)
  | double (q : ℚ)

/-- The number as a double: an integer is rounded to one. -/
def NumericValue.asDouble : NumericValue → ℚ
  | .integer n => binary64.round n.toInt
  | .double q => q

/-- The value that a number is. -/
def NumericValue.toValue : NumericValue → Value
  | .integer n => .int n
  | .double q => .double q

/-- A number is in order, being no map. -/
theorem NumericValue.inOrder_toValue (n : NumericValue) : n.toValue.InOrder := by
  cases n <;> exact .scalar _

/-- The sum, which is an integer only of integers, and else one of doubles. -/
def NumericValue.add : NumericValue → NumericValue → NumericValue
  | .integer m, .integer n => .integer (safeIncrement m n)
  | .integer m, .double q => .double (binary64.round (binary64.round m.toInt + q))
  | .double p, operand => .double (binary64.round (p + operand.asDouble))

/-- How a transform makes the value of a field from the value it has. -/
inductive TransformOperation where
  | arrayUnion (elements : List Value)
  | arrayRemove (elements : List Value)
  | numericIncrement (operand : NumericValue)

namespace TransformOperation

/-- The number that is incremented: what is no number counts as none. -/
def computeBaseValue : Option Value → NumericValue
  | some (.int n) => .integer n
  | some (.double q) => .double q
  | _ => .integer 0

/-- **The value a field takes.** -/
def applyToLocalView (t : TransformOperation) (previousValue : Option Value) : Value :=
  match t with
  | .arrayUnion es =>
    let array := elements previousValue
    let newElements := es.foldl
      (fun acc e => if e ∉ array ∧ e ∉ acc then acc ++ [e] else acc) []
    .array (array ++ newElements)
  | .arrayRemove es => .array ((elements previousValue).filter (fun e => decide (e ∉ es)))
  | .numericIncrement operand => ((computeBaseValue previousValue).add operand).toValue

/-- The value a transform makes is in order, being no map. -/
theorem inOrder_applyToLocalView (t : TransformOperation) (previousValue : Option Value) :
    (t.applyToLocalView previousValue).InOrder := by
  cases t with
  | arrayUnion es => exact .array _
  | arrayRemove es => exact .array _
  | numericIncrement operand => exact NumericValue.inOrder_toValue _

end TransformOperation

/-- A transform, with the path of the field it is made of. -/
structure FieldTransform where
  path : FieldPath
  transformation : TransformOperation

/-! ## Mutations -/

/-- A mask is a set of fields, kept as the ordered list of their paths. -/
abbrev FieldMask := List FieldPath

/-- The mask with one more field in it. -/
def FieldMask.insert (path : FieldPath) (mask : FieldMask) : FieldMask :=
  OrderedSet.insert FieldPath.Before id path mask

/-- A mask with one more field in it has that field and those it had. -/
theorem FieldMask.mem_insert {mask : FieldMask} {p q : FieldPath} :
    q ∈ mask.insert p ↔ q = p ∨ q ∈ mask := by
  refine ⟨OrderedSet.mem_insert_imp, fun h => ?_⟩
  by_cases hq : q = p
  · rw [hq]
    exact OrderedSet.mem_insert_self p mask
  · exact OrderedSet.mem_insert_of_ne (h.resolve_left hq) hq

/-- **A write of a document.** -/
inductive Mutation where
  | set (value : Fields) (precondition : Precondition) (fieldTransforms : List FieldTransform)
  | patch (value : Fields) (mask : FieldMask) (precondition : Precondition)
    (fieldTransforms : List FieldTransform)
  | delete (precondition : Precondition)

namespace Mutation

/-- The fields it patches, if it is a patch. -/
def fieldMask : Mutation → Option FieldMask
  | .patch _ mask _ _ => some mask
  | _ => none

/-- The transforms that a write makes. -/
def fieldTransforms : Mutation → List FieldTransform
  | .set _ _ transforms | .patch _ _ _ transforms => transforms
  | .delete _ => []

/-- The values transforms come to here, each made of what the document was before
them. -/
def localTransformResults (transforms : List FieldTransform) (previousData : Fields) :
    TransformMap :=
  transforms.foldl (fun results t => OrderedSet.insert FieldPath.Before Prod.fst
    (t.path, some (t.transformation.applyToLocalView (ObjectValue.get previousData t.path)))
    results) []

/-- The values of a patch: a field of the mask that has none is deleted. -/
def getPatch (value : Fields) (mask : FieldMask) : TransformMap :=
  (mask.filter (fun path => decide (path ≠ []))).map
    (fun path => (path, ObjectValue.get value path))

/-- **The document after a write**, and the fields that have been patched since
it was what the server has. -/
def applyToLocalView (m : Mutation) (doc : MutableDocument) (previousMask : Option FieldMask) :
    MutableDocument × Option FieldMask :=
  match m with
  | .set value precondition transforms =>
    if precondition.isValidFor doc then
      let data := ObjectValue.setAll value (localTransformResults transforms doc.value)
      ((doc.convertToFoundDocument doc.version data).setHasLocalMutations, none)
    else (doc, previousMask)
  | .patch value mask precondition transforms =>
    if precondition.isValidFor doc then
      let transformResults := localTransformResults transforms doc.value
      let data := ObjectValue.setAll (ObjectValue.setAll doc.value (getPatch value mask))
        transformResults
      ((doc.convertToFoundDocument doc.version data).setHasLocalMutations,
        previousMask.map (fun previous =>
          (mask ++ transforms.map FieldTransform.path).foldl (fun acc p => acc.insert p) previous))
    else (doc, previousMask)
  | .delete precondition =>
    if precondition.isValidFor doc then
      ((doc.convertToNoDocument .none).setHasLocalMutations, none)
    else (doc, previousMask)

/-- The field that is named for a field of the mask: of a field that is gone, the
field it was in. -/
def overlayPath (value : Fields) (path : FieldPath) : FieldPath :=
  if (ObjectValue.get value path).isNone ∧ 1 < path.length then path.dropLast else path

/-- What a field of the mask has become is put in the patch, and the field in the
mask the patch is for. -/
def overlayStep (value : Fields) (overlay : Fields × FieldMask) (path : FieldPath) :
    Fields × FieldMask :=
  if path ∈ overlay.snd then overlay
  else
    let path := overlayPath value path
    (match ObjectValue.get value path with
      | some v => ObjectValue.set overlay.fst path v
      | none => ObjectValue.delete overlay.fst path,
      overlay.snd.insert path)

/-- The patch that gives the fields of a mask what they have become, with the mask
it is for. -/
def overlayPatch (value : Fields) (mask : FieldMask) : Fields × FieldMask :=
  mask.foldl (overlayStep value) ([], [])

/-- **The overlay**: one mutation that makes the document of what the server has. -/
def calculateOverlayMutation (doc : MutableDocument) (mask : Option FieldMask) :
    Option Mutation :=
  if doc.hasLocalMutations then
    match mask with
    | none => some (if doc.isNoDocument then .delete .none else .set doc.value .none [])
    | some mask =>
      let overlay := overlayPatch doc.value mask
      some (.patch overlay.fst overlay.snd .none [])
  else none

/-- A turn of its loop: the number that an increment starts from is put. -/
def addBaseValue (doc : MutableDocument) (baseObject : Option Fields) (t : FieldTransform) :
    Option Fields :=
  match t.transformation with
  | .numericIncrement _ =>
    some (ObjectValue.set (baseObject.getD []) t.path
      (TransformOperation.computeBaseValue (ObjectValue.get doc.value t.path)).toValue)
  | _ => baseObject

/-- The numbers the increments of a write start from, as a document of their own.
-/
def extractTransformBaseValue (m : Mutation) (doc : MutableDocument) : Option Fields :=
  m.fieldTransforms.foldl (addBaseValue doc) none

end Mutation

end Firestore
