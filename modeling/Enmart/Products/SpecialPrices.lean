import Enmart.Base.LastWrite
import Enmart.Firestore.Write
import Enmart.Models.Product

/-!
# Special prices

The special prices of a product are a map in its document, from users to
prices. `setSpecialPrice` writes one entry of it by its path, and removes a
price by writing null; decoding leaves the nulls out. The dialog that edits a
product writes the fields of `toMap`, and the map is none of them.

So the document is a last-write-wins map over any sequence of edits
(`special_prices_last_write`): decoding gives one special price for each user
whose most recent price is not null, and every edit leaves alone what is not
its own.
-/

open Firestore

/-- The stored form of a special price; null where there is none. -/
def SpecialPriceModel.priceValue (model : SpecialPriceModel) : Value :=
  match model.price with
  | some n => .int n
  | none => .null

/-- **`setSpecialPrice`** writes one entry of the map, by its path. -/
def setSpecialPrice (doc : Fields) (model : SpecialPriceModel) : Fields :=
  doc.setIn "specialUsers" model.userId model.priceValue

/-- **The update of a product** by the dialog that edits it. -/
def updateItem (doc : Fields) (m : ProductModel) : Fields :=
  doc.patch (Fields.values m.toMap)

/-- What is done to the document of a product. -/
inductive ProductEdit where
  /-- `setSpecialPrice` is called. -/
  | special (model : SpecialPriceModel)
  /-- The product is updated. -/
  | update (m : ProductModel)
  /-- The product is read again. -/
  | read
  deriving DecidableEq, Repr

namespace ProductEdit

/-- **The document after an edit.** -/
def apply (doc : Fields) : ProductEdit → Fields
  | .special model => setSpecialPrice doc model
  | .update m => updateItem doc m
  | .read => doc

/-- The entry an edit writes, if it sets a special price. -/
def call : ProductEdit → Option (String × Option Int64)
  | .special model => some (model.userId, model.price)
  | _ => none

end ProductEdit

/-- The special price of a user in a document, if it has one. -/
def storedPrice (doc : Fields) (uid : String) : Option Int64 :=
  asInt ((Fields.ofValue (doc.get? "specialUsers")).get? uid)

/-- The special prices a user has where the price is `p`: one, or none. -/
def entryOf (uid : String) (p : Option Int64) : List SpecialPriceModel :=
  p.toList.map (fun n => ⟨uid, some n⟩)

/-- **The document of a product**: it can be decoded, and its special prices are
a map. -/
structure IsProductDoc (print : Value → String) (doc : Fields) : Prop where
  decodes : (ProductModel.fromMap print doc).isSome
  sorted : (Fields.ofValue (doc.get? "specialUsers")).Sorted

/-! ## Decoding the map -/

/-- The price a value of the map stands for; null stands for none. -/
def priceOf : Value → Option (Option Int64)
  | .null => some none
  | .int n => some (some n)
  | _ => none

theorem priceOf_priceValue (model : SpecialPriceModel) :
    priceOf model.priceValue = some model.price := by
  unfold SpecialPriceModel.priceValue
  cases model.price with
  | none => rfl
  | some n => rfl

/-- The map is decoded value by value. -/
theorem generateSpecialPrice_cons (e : String) (v : Value) (map : Fields) :
    generateSpecialPrice ((e, v) :: map)
      = (priceOf v).bind (fun p => (generateSpecialPrice map).map (entryOf e p ++ ·)) := by
  cases v with
  | scalar c =>
    cases c with
    | null =>
      show generateSpecialPrice map = (generateSpecialPrice map).map ([] ++ ·)
      exact Option.map_id'.symm
    | int n => rfl
    | bool b => rfl
    | double q => rfl
    | timestamp t => rfl
    | string s => rfl
  | array vs => rfl
  | map fs => rfl

/-- A map decodes exactly when all its values are prices or null. -/
theorem isSome_generateSpecialPrice {map : Fields} :
    (generateSpecialPrice map).isSome ↔ ∀ f ∈ map, (priceOf f.snd).isSome := by
  induction map with
  | nil => exact iff_of_true rfl (fun f hf => absurd hf List.not_mem_nil)
  | cons f map ih =>
    obtain ⟨e, v⟩ := f
    rw [List.forall_mem_cons, ← ih, generateSpecialPrice_cons]
    rcases priceOf v with _ | p
    · exact iff_of_false Bool.false_ne_true (fun hc => Bool.false_ne_true hc.1)
    · rw [Option.bind_some, Option.isSome_map]
      exact (and_iff_right rfl).symm

/-- An integer is the price it stands for. -/
theorem asInt_some (v : Value) : asInt (some v) = (priceOf v).join := by
  cases v with
  | scalar c =>
    cases c with
    | null => rfl
    | int n => rfl
    | bool b => rfl
    | double q => rfl
    | timestamp t => rfl
    | string s => rfl
  | array vs => rfl
  | map fs => rfl

/-- **A map decodes to one entry for each price**, under the user it is stored
for. -/
theorem filter_generateSpecialPrice {map : Fields} {l : List SpecialPriceModel}
    (hkeys : (map.map Prod.fst).Nodup) (hl : generateSpecialPrice map = some l) (uid : String) :
    l.filter (fun e => e.userId = uid) = entryOf uid (asInt (map.get? uid)) := by
  induction map generalizing l with
  | nil =>
    obtain rfl := Option.some.inj hl
    rfl
  | cons f map ih =>
    obtain ⟨e, v⟩ := f
    obtain ⟨he, hkeys'⟩ := List.nodup_cons.mp hkeys
    rw [generateSpecialPrice_cons] at hl
    obtain ⟨p, hp, hl⟩ := Option.bind_eq_some_iff.mp hl
    obtain ⟨l', hl', rfl⟩ := Option.map_eq_some_iff.mp hl
    rw [List.filter_append, ih hkeys' hl', Fields.get?_cons]
    by_cases huid : uid = e
    · -- the user's own entry comes first, and there is no other
      subst huid
      rw [if_pos rfl, Fields.get?_eq_none he, asInt_some, hp]
      show (entryOf uid p).filter _ ++ [] = entryOf uid p
      rw [List.append_nil]
      refine List.filter_eq_self.mpr (fun x hx => ?_)
      obtain ⟨n, -, rfl⟩ := List.mem_map.mp hx
      exact decide_eq_true rfl
    · rw [if_neg huid]
      refine List.append_left_eq_self.mpr (List.filter_eq_nil_iff.mpr (fun x hx hc => ?_))
      obtain ⟨n, -, rfl⟩ := List.mem_map.mp hx
      exact huid (of_decide_eq_true hc).symm

/-- What is decoded is the map the field holds. -/
theorem specialUsersOf_eq {v : Option Value} {l : List SpecialPriceModel}
    (h : specialUsersOf v = some l) : generateSpecialPrice (Fields.ofValue v) = some l := by
  unfold specialUsersOf at h
  split at h
  · exact h
  · exact h
  · next v _ =>
    cases v with
    | map fs => exact h
    | scalar c => exact absurd h (by simp [asMap])
    | array vs => exact absurd h (by simp [asMap])

/-! ## What an edit does -/

/-- Setting a special price writes the one field. -/
theorem get?_setSpecialPrice (doc : Fields) (model : SpecialPriceModel) (k : String) :
    (setSpecialPrice doc model).get? k
      = if k = "specialUsers" then
          some (.map ((Fields.ofValue (doc.get? "specialUsers")).set model.userId model.priceValue))
        else doc.get? k :=
  Fields.get?_set ..

/-- An update writes the fields of `toMap`. -/
theorem get?_updateItem (doc : Fields) (m : ProductModel) (k : String) :
    (updateItem doc m).get? k = (Fields.get? m.toMap k).or (doc.get? k) :=
  Fields.get?_patch_values m.toMap_sorted doc k

/-- **An update leaves the special prices alone.** -/
theorem specialUsers_updateItem (doc : Fields) (m : ProductModel) :
    (updateItem doc m).get? "specialUsers" = doc.get? "specialUsers" := by
  rw [get?_updateItem]
  rfl

/-- **A special price set** is the user's, and the others keep theirs. -/
theorem storedPrice_setSpecialPrice (doc : Fields) (model : SpecialPriceModel) :
    storedPrice (setSpecialPrice doc model)
      = Function.update (storedPrice doc) model.userId model.price := by
  funext uid
  unfold storedPrice
  rw [get?_setSpecialPrice, if_pos rfl]
  show asInt (Fields.get? (Fields.set _ model.userId model.priceValue) uid) = _
  rw [Fields.get?_set]
  by_cases huid : uid = model.userId
  · subst huid
    rw [if_pos rfl, Function.update_self, asInt_some, priceOf_priceValue]
    rfl
  · rw [if_neg huid, Function.update_of_ne huid]

namespace IsProductDoc

variable {print : Value → String} {doc : Fields}

/-- **Setting a special price keeps a product a product.** -/
theorem setSpecialPrice (h : IsProductDoc print doc) (model : SpecialPriceModel) :
    IsProductDoc print (setSpecialPrice doc model) := by
  obtain ⟨hmaterial, hquantity, hspecial⟩ := ProductModel.isSome_fromMap_iff.mp h.decodes
  refine ⟨ProductModel.isSome_fromMap_iff.mpr ⟨?_, ?_, ?_⟩, ?_⟩
  · rw [get?_setSpecialPrice, if_neg (by decide)]
    exact hmaterial
  · rw [get?_setSpecialPrice, if_neg (by decide)]
    exact hquantity
  · obtain ⟨l, hl⟩ := Option.isSome_iff_exists.mp hspecial
    have hprices := isSome_generateSpecialPrice.mp
      (Option.isSome_iff_exists.mpr ⟨l, specialUsersOf_eq hl⟩)
    rw [get?_setSpecialPrice, if_pos rfl]
    refine isSome_generateSpecialPrice.mpr (fun f hf => ?_)
    rcases Fields.mem_set hf with rfl | hf
    · rw [priceOf_priceValue]
      rfl
    · exact hprices f hf
  · rw [get?_setSpecialPrice, if_pos rfl]
    exact h.sorted.set model.userId model.priceValue

/-- **An update keeps a product a product.** -/
theorem updateItem (h : IsProductDoc print doc) (m : ProductModel) :
    IsProductDoc print (updateItem doc m) := by
  obtain ⟨-, -, hspecial⟩ := ProductModel.isSome_fromMap_iff.mp h.decodes
  refine ⟨ProductModel.isSome_fromMap_iff.mpr ⟨?_, ?_, ?_⟩, ?_⟩
  · rw [get?_updateItem]
    rfl
  · rw [get?_updateItem]
    show (parseQuantity (some (.int m.quantity))).isSome
    rw [parseQuantity_int]
    rfl
  · rw [specialUsers_updateItem]
    exact hspecial
  · rw [specialUsers_updateItem]
    exact h.sorted

/-- **Every edit keeps a product a product.** -/
theorem apply (h : IsProductDoc print doc) (e : ProductEdit) :
    IsProductDoc print (e.apply doc) := by
  cases e with
  | special model => exact h.setSpecialPrice model
  | update m => exact h.updateItem m
  | read => exact h

theorem foldl_apply (h : IsProductDoc print doc) (es : List ProductEdit) :
    IsProductDoc print (es.foldl ProductEdit.apply doc) := by
  induction es generalizing doc with
  | nil => exact h
  | cons e es ih => exact ih (h.apply e)

/-- **A product decodes to one special price for each user that has one.** -/
theorem filter_specialUsers (h : IsProductDoc print doc) {m : ProductModel}
    (hm : ProductModel.fromMap print doc = some m) (uid : String) :
    m.specialUsers.filter (fun e => e.userId = uid) = entryOf uid (storedPrice doc uid) := by
  obtain ⟨-, -, hspecial, -⟩ := ProductModel.fromMap_eq_some_iff.mp hm
  exact filter_generateSpecialPrice h.sorted.nodup (specialUsersOf_eq hspecial) uid

end IsProductDoc

/-- **An edit leaves alone what is not its own**: a special price that is set the
other fields and the other users' prices, an update all special prices. -/
structure EditsFramed (doc : Fields) : Prop where
  fields : ∀ model k, k ≠ "specialUsers" → (setSpecialPrice doc model).get? k = doc.get? k
  users : ∀ model uid, uid ≠ model.userId →
    (Fields.ofValue ((setSpecialPrice doc model).get? "specialUsers")).get? uid
      = (Fields.ofValue (doc.get? "specialUsers")).get? uid
  update : ∀ m, (updateItem doc m).get? "specialUsers" = doc.get? "specialUsers"

/-- Every document's edits are framed. -/
theorem editsFramed (doc : Fields) : EditsFramed doc := by
  refine ⟨fun model k hk => ?_, fun model uid huid => ?_, specialUsers_updateItem doc⟩
  · rw [get?_setSpecialPrice, if_neg hk]
  · rw [get?_setSpecialPrice, if_pos rfl]
    show Fields.get? (Fields.set _ model.userId model.priceValue) uid = _
    rw [Fields.get?_set, if_neg huid]

/-- **The special prices of a product are a last-write-wins map.** From the
document of any product, after any sequence of special prices set, updates and
reads, the document decodes to exactly one special price for each user whose
most recent price is not null – the one the document began with, where there is
no more recent one – and to none for the others; and each edit leaves alone
what is not its own. -/
theorem special_prices_last_write (print : Value → String) (doc : Fields)
    (h : IsProductDoc print doc) (es : List ProductEdit) :
    (∃ m, ProductModel.fromMap print (es.foldl ProductEdit.apply doc) = some m ∧
      ∀ uid, m.specialUsers.filter (fun e => e.userId = uid)
        = entryOf uid ((LastWrite.last (es.filterMap ProductEdit.call) uid).getD
          (storedPrice doc uid))) ∧
      EditsFramed (es.foldl ProductEdit.apply doc) := by
  have hdoc := h.foldl_apply es
  obtain ⟨m, hm⟩ := Option.isSome_iff_exists.mp hdoc.decodes
  refine ⟨⟨m, hm, fun uid => ?_⟩, editsFramed _⟩
  rw [hdoc.filter_specialUsers hm uid]
  refine congrArg (entryOf uid) (LastWrite.read_foldl (I := fun _ => True) (fun _ _ _ => trivial)
    ?_ ?_ trivial es uid)
  · intro d e w _ hw
    cases e with
    | special model =>
      obtain rfl := Option.some.inj hw
      exact storedPrice_setSpecialPrice d model
    | update m => exact absurd hw (by simp [ProductEdit.call])
    | read => exact absurd hw (by simp [ProductEdit.call])
  · intro d e _ hw
    cases e with
    | special model => exact absurd hw (by simp [ProductEdit.call])
    | update m =>
      funext uid
      show storedPrice (updateItem d m) uid = storedPrice d uid
      rw [storedPrice, specialUsers_updateItem]
      rfl
    | read => rfl

/-- The law at work: a price set, replaced, and another removed. -/
theorem special_prices_last_write_two :
    (∃ m, ProductModel.fromMap (fun _ => "")
        ([.special ⟨"u", some 3⟩, .special ⟨"v", none⟩, .special ⟨"u", some 4⟩].foldl
          ProductEdit.apply (ProductModel.mk "p" "c" "m" 1 (.int 5) []).toMap) = some m ∧
      ∀ uid, m.specialUsers.filter (fun e => e.userId = uid)
        = entryOf uid ((LastWrite.last (List.filterMap ProductEdit.call
            [.special ⟨"u", some 3⟩, .special ⟨"v", none⟩, .special ⟨"u", some 4⟩]) uid).getD
          (storedPrice (ProductModel.mk "p" "c" "m" 1 (.int 5) []).toMap uid))) ∧
      EditsFramed ([.special ⟨"u", some 3⟩, .special ⟨"v", none⟩, .special ⟨"u", some 4⟩].foldl
          ProductEdit.apply (ProductModel.mk "p" "c" "m" 1 (.int 5) []).toMap) :=
  special_prices_last_write (fun _ => "") (ProductModel.mk "p" "c" "m" 1 (.int 5) []).toMap
    ⟨by rw [ProductModel.fromMap_toMap]; rfl, List.Pairwise.nil⟩
    [.special ⟨"u", some 3⟩, .special ⟨"v", none⟩, .special ⟨"u", some 4⟩]
