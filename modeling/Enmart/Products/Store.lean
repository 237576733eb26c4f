import Enmart.Base.Runs
import Enmart.Products.SpecialPrices
import Enmart.Records.Creation

/-!
# The products collection

Everything that changes or removes a product finds it under `model.id`, the
`id` field of the document it was read from. Nothing but the writers sees to it
that a document is stored under its own `id`: the dialogs put a new product
under the `id` they give it, and the import of a spreadsheet lets the store
choose the key.

`productStep` is the collection with all its writers, and `stored_under_id_iff`
says that every product stays under its own `id` exactly as long as no row is
imported under a key that is not the `id` of the row.
-/

open Firestore

/-- **The product a row of the spreadsheet becomes**, whatever is in the row. -/
def importedRow (now : DateTime) : ProductModel where
  id := toString now.millisecondsSinceEpoch
  code := ""
  material := ""
  quantity := 0
  price := .int 0
  specialUsers := []

/-- What is done to the products. -/
inductive ProductAction where
  /-- A product is created, new or as a duplicate. -/
  | create (now : DateTime) (code material quantity : String) (price : Number)
  /-- The product of an `id` is updated. -/
  | update (m : ProductModel)
  | delete (id : String)
  | special (productId : String) (model : SpecialPriceModel)
  /-- A row of a spreadsheet is imported, under a key the store generates. -/
  | importRow (key : String) (now : DateTime)
  deriving DecidableEq, Repr

/-- **One step of the products collection.** A generated key is one no document
has. -/
def productStep (products : Collection) : ProductAction → Option Collection
  | .create now code material quantity price =>
    if code ≠ "" ∧ material ≠ "" ∧ quantity ≠ "" then
      some (products.set (newItem now code material quantity price).id
        (Fields.values (newItem now code material quantity price).toMap))
    else none
  | .update m => products.update m.id (Fields.values m.toMap)
  | .delete id => some (products.delete id)
  | .special productId model =>
    (products productId).map (fun doc =>
      Function.update products productId (some (setSpecialPrice doc model)))
  | .importRow key now =>
    if products key = none then
      some (products.set key (Fields.values (importedRow now).toMap))
    else none

/-- The document has its key for an `id`. -/
def HasId (key : String) (doc : Fields) : Prop := doc.get? "id" = some (.string key)

/-- **Every product is stored under its own `id`.** -/
def StoredUnderId (products : Collection) : Prop := products.Each HasId

/-- **The generated key is the `id`** of the row that is imported. -/
def ImportsUnderId (_ : Collection) : ProductAction → Prop
  | .importRow key now => key = (importedRow now).id
  | _ => True

/-- What `toMap` stores has the product's `id`. -/
theorem hasId_toMap (m : ProductModel) : HasId m.id m.toMap := rfl

/-- The document of a product put whole. -/
theorem set_toMap (products : Collection) (key : String) (m : ProductModel) :
    products.set key (Fields.values m.toMap)
      = Function.update products key (some m.toMap) := by
  rw [Collection.set, Fields.ofUpdate_values m.toMap_sorted]

/-- A product is put under a condition: that is what the condition leads to. -/
theorem eq_of_put {P : Prop} [Decidable P] {products products' : Collection} {key : String}
    {m : ProductModel}
    (h : (if P then some (products.set key (Fields.values m.toMap)) else none) = some products') :
    P ∧ products' = Function.update products key (some m.toMap) := by
  rw [set_toMap] at h
  split at h
  · next hP => exact ⟨hP, (Option.some.inj h).symm⟩
  · exact absurd h (by simp)

namespace StoredUnderId

variable {products products' : Collection} {a : ProductAction}

/-- **A step that imports nothing under another key** keeps every product under
its `id`. -/
theorem step (h : StoredUnderId products) (hC : ImportsUnderId products a)
    (hstep : productStep products a = some products') : StoredUnderId products' := by
  cases a with
  | create now code material quantity price =>
    obtain ⟨-, rfl⟩ := eq_of_put hstep
    exact Collection.Each.put h (hasId_toMap _)
  | update m =>
    obtain ⟨doc, hdoc, rfl⟩ := Option.map_eq_some_iff.mp hstep
    refine Collection.Each.put h ?_
    show (updateItem doc m).get? "id" = some (.string m.id)
    rw [get?_updateItem]
    rfl
  | delete id =>
    obtain rfl := Option.some.inj hstep
    exact Collection.Each.delete h id
  | special productId model =>
    obtain ⟨doc, hdoc, rfl⟩ := Option.map_eq_some_iff.mp hstep
    refine Collection.Each.put h ?_
    rw [HasId, get?_setSpecialPrice, if_neg (by decide)]
    exact h productId doc hdoc
  | importRow key now =>
    obtain ⟨-, rfl⟩ := eq_of_put hstep
    have hkey : key = (importedRow now).id := hC
    rw [hkey]
    exact Collection.Each.put h (hasId_toMap _)

/-- **A row imported under another key** is not stored under its `id`. -/
theorem not_step (hC : ¬ ImportsUnderId products a)
    (hstep : productStep products a = some products') : ¬ StoredUnderId products' := by
  intro hlaw
  cases a with
  | create now code material quantity price => exact hC trivial
  | update m => exact hC trivial
  | delete id => exact hC trivial
  | special productId model => exact hC trivial
  | importRow key now =>
    obtain ⟨-, rfl⟩ := eq_of_put hstep
    have hid := hlaw key _ (Function.update_self ..)
    exact hC (Value.scalar.inj (Option.some.inj hid) |> Scalar.string.inj).symm

end StoredUnderId

/-- **When every product is stored under its own `id`.** From any products that
are, in any run of creations, duplications, updates, deletions, special prices
and imports, every product stays under its own `id` – exactly when no row is
imported under a key other than the `id` it is given. -/
theorem stored_under_id_iff (products : Collection) (h : StoredUnderId products)
    (as : List ProductAction) :
    Runs.Along productStep StoredUnderId products as
      ↔ Runs.Meets productStep ImportsUnderId products as :=
  Runs.along_iff_meets (I := StoredUnderId) (fun _ hI => hI)
    (fun _ _ _ hI hC hstep => hI.step hC hstep)
    (fun _ _ _ _ hC hstep => StoredUnderId.not_step hC hstep) h

/-- The law at work: a product created and deleted, with no products before. -/
theorem stored_under_id_iff_created :
    Runs.Along productStep StoredUnderId (fun _ => none)
        [.create ⟨2000⟩ "c" "m" "1" (.int 5), .delete "2"]
      ↔ Runs.Meets productStep ImportsUnderId (fun _ => none)
        [.create ⟨2000⟩ "c" "m" "1" (.int 5), .delete "2"] :=
  stored_under_id_iff (fun _ => none) (fun _ _ hdoc => nomatch hdoc)
    [.create ⟨2000⟩ "c" "m" "1" (.int 5), .delete "2"]

/-- **A row under another key**: the product imported in the second millisecond
has `2` for an `id`, and a key of its own. -/
theorem imported_elsewhere :
    ¬ ∀ (products : Collection), StoredUnderId products → ∀ (as : List ProductAction),
      Runs.Along productStep StoredUnderId products as := by
  intro h
  have hlaw := h (fun _ => none) (fun _ _ hdoc => nomatch hdoc)
    [.importRow "generated" ⟨2000⟩]
  have hid := (hlaw.last rfl) "generated" (importedRow ⟨2000⟩).toMap (by decide +kernel)
  exact absurd hid (by unfold HasId; decide +kernel)
