import Enmart.Base.Runs
import Enmart.Models.User
import Enmart.Orders.Dispatch
import Enmart.Products.References

/-!
# Documents that can be read back

Five collections are written from all over the program and read whole by its
screens. A screen decodes every document it lists, and a document that cannot
be decoded takes the screen down; so every document must be readable, by
everyone, at any time.

`writeStep` is the collections with all their writers, each write a step of
its own – a dispatch makes two, `addToCart` one or two – so the documents seen
between two writes of one operation are seen here too. Whatever partial write
lands on a document that can be read leaves one that can. The one writer that
breaks this is the dialog that creates a user with a name only: nothing of
what `UserModel.fromMap` asks for but the `uid` is there (`readable_iff`).

A special price is written by the path `specialUsers.<uid>`; the user's `uid`
is one the authentication service made, and has no dots.
-/

open Firestore SetArray

/-! ## What decoding asks for -/

/-- An array of elements is read where it is an array and each is read. -/
theorem isSome_asArray_bind_iff {α : Type} {f : Value → Option α} {v : Option Value} :
    ((asArray v).bind (fun vs => vs.mapM f)).isSome
      ↔ ∃ vs, v = some (.array vs) ∧ ∀ x ∈ vs, (f x).isSome := by
  constructor
  · intro h
    obtain ⟨ys, hys⟩ := Option.isSome_iff_exists.mp h
    obtain ⟨vs, hvs, hread⟩ := Option.bind_eq_some_iff.mp hys
    exact ⟨vs, asArray_eq_some.mp hvs,
      isSome_mapM_iff.mp (Option.isSome_iff_exists.mpr ⟨ys, hread⟩)⟩
  · rintro ⟨vs, rfl, h⟩
    exact isSome_mapM_iff.mpr h

section Lines

variable {vs : List Value}

/-- Lines that are read are read without some of them. -/
theorem forall_ofValue_remove (h : ∀ x ∈ vs, (OrderModel.ofValue x).isSome) (ws : List Value) :
    ∀ x ∈ remove vs ws, (OrderModel.ofValue x).isSome :=
  fun x hx => h x (mem_remove.mp hx).1

/-- Lines that are read are read with an encoded one. -/
theorem forall_ofValue_union (h : ∀ x ∈ vs, (OrderModel.ofValue x).isSome) (o : OrderModel) :
    ∀ x ∈ union vs [o.toMap], (OrderModel.ofValue x).isSome := by
  intro x hx
  rcases mem_union_singleton.mp hx with hx | rfl
  · exact h x hx
  · rw [OrderModel.ofValue_toMap]
    rfl

end Lines

section Reads

variable {α β γ : Type} {x : Option α} {P : Prop}

/-- A read followed by others that do not depend on it. -/
theorem isSome_bind_iff {f : α → Option β} (h : ∀ a, (f a).isSome ↔ P) :
    (x.bind f).isSome ↔ x.isSome ∧ P := by
  cases x with
  | none => exact iff_of_false Bool.false_ne_true (fun hc => Bool.false_ne_true hc.1)
  | some a => exact (h a).trans (and_iff_right rfl).symm

/-- A record can be read when the last of its fields can. -/
theorem isSome_bind_some_iff {f : α → β} : (x.bind (fun a => some (f a))).isSome ↔ x.isSome := by
  cases x with
  | none => rfl
  | some a => rfl

/-- A read in two parts followed by others that do not depend on it. -/
theorem isSome_bind_bind_iff {f : α → Option β} {g : β → Option γ} (h : ∀ b, (g b).isSome ↔ P) :
    (x.bind (fun a => (f a).bind g)).isSome ↔ (x.bind f).isSome ∧ P := by
  rw [← Option.bind_assoc]
  exact isSome_bind_iff h

end Reads

/-- **What decoding asks of a user.** -/
theorem UserModel.isSome_fromMap_iff {doc : Fields} :
    (UserModel.fromMap doc).isSome
      ↔ (asString (doc.get? "email")).isSome ∧ (asString (doc.get? "uid")).isSome
        ∧ (asString (doc.get? "fullName")).isSome ∧ (asString (doc.get? "address")).isSome
        ∧ (approvedOf (doc.get? "isApproved")).isSome
        ∧ (asTimestamp (doc.get? "createdAt")).isSome :=
  isSome_bind_iff (fun _ => isSome_bind_iff (fun _ => isSome_bind_iff (fun _ =>
    isSome_bind_iff (fun _ => isSome_bind_iff (fun _ => isSome_bind_some_iff)))))

/-- **What decoding asks of an order.** -/
theorem OrderCartModel.isSome_fromMap_iff {doc : Fields} :
    (OrderCartModel.fromMap doc).isSome
      ↔ (asString (doc.get? "status")).isSome ∧ (asString (doc.get? "uid")).isSome
        ∧ (asString (doc.get? "id")).isSome ∧ (asTimestamp (doc.get? "orderedAt")).isSome
        ∧ ((asArray (doc.get? "items")).bind (fun vs => vs.mapM OrderModel.ofValue)).isSome
        ∧ (asInt (doc.get? "totalQuantity")).isSome
        ∧ (asInt (doc.get? "deliveredQuantity")).isSome :=
  isSome_bind_iff (fun _ => isSome_bind_iff (fun _ => isSome_bind_iff (fun _ =>
    isSome_bind_iff (fun _ => isSome_bind_bind_iff (fun _ => isSome_bind_iff (fun _ =>
      isSome_bind_some_iff))))))

/-! ## What the partial writes leave -/

/-- The write of the approval switch. -/
def approveWrite (isApproved : Bool) : Update := [("isApproved", .value (.bool isApproved))]

/-- **The approval switch** leaves a user that can be read. -/
theorem isSome_fromMap_approve {doc : Fields} (h : (UserModel.fromMap doc).isSome)
    (isApproved : Bool) : (UserModel.fromMap (doc.patch (approveWrite isApproved))).isSome := by
  obtain ⟨hemail, huid, hname, haddress, -, hat⟩ := UserModel.isSome_fromMap_iff.mp h
  have hkeep : ∀ k, k ≠ "isApproved" →
      (doc.patch (approveWrite isApproved)).get? k = doc.get? k :=
    fun k hk => Fields.get?_patch_of_notMem (fun hmem => hk (List.mem_singleton.mp hmem)) doc
  have happroved : (doc.patch (approveWrite isApproved)).get? "isApproved"
      = some (.bool isApproved) := by
    show (doc.set "isApproved" _).get? "isApproved" = _
    rw [Fields.get?_set, if_pos rfl]
    rfl
  rw [UserModel.isSome_fromMap_iff, hkeep _ (by decide), hkeep _ (by decide),
    hkeep _ (by decide), hkeep _ (by decide), happroved, hkeep _ (by decide)]
  exact ⟨hemail, huid, hname, haddress, rfl, hat⟩

/-- The fields of an order that no dispatch writes. -/
def orderedFields : List String := ["uid", "id", "orderedAt", "totalQuantity"]

/-- **A write of a dispatch** leaves an order that can be read, if the fields
it may write can be. -/
theorem OrderCartModel.isSome_fromMap_patch {doc : Fields}
    (h : (OrderCartModel.fromMap doc).isSome) {us : Update}
    (hnames : ∀ k ∈ orderedFields, k ∉ us.map Prod.fst)
    (hstatus : (asString ((doc.patch us).get? "status")).isSome)
    (hitems : ∃ vs, (doc.patch us).get? "items" = some (.array vs)
      ∧ ∀ x ∈ vs, (OrderModel.ofValue x).isSome)
    (hdelivered : (asInt ((doc.patch us).get? "deliveredQuantity")).isSome) :
    (OrderCartModel.fromMap (doc.patch us)).isSome := by
  obtain ⟨-, huid, hid, hat, -, htotal, -⟩ := OrderCartModel.isSome_fromMap_iff.mp h
  have hkeep : ∀ k ∈ orderedFields, (doc.patch us).get? k = doc.get? k :=
    fun k hk => Fields.get?_patch_of_notMem (hnames k hk) doc
  rw [← hkeep "uid" (by decide)] at huid
  rw [← hkeep "id" (by decide)] at hid
  rw [← hkeep "orderedAt" (by decide)] at hat
  rw [← hkeep "totalQuantity" (by decide)] at htotal
  exact OrderCartModel.isSome_fromMap_iff.mpr
    ⟨hstatus, huid, hid, hat, isSome_asArray_bind_iff.mpr hitems, htotal, hdelivered⟩

/-- **The first write of a dispatch** leaves an order that can be read. -/
theorem isSome_fromMap_removeWrite {doc : Fields} (h : (OrderCartModel.fromMap doc).isSome)
    (c : DispatchCall) : (OrderCartModel.fromMap (doc.patch c.removeWrite)).isSome := by
  obtain ⟨hstatus, -, -, -, hitems, -, hdelivered⟩ := OrderCartModel.isSome_fromMap_iff.mp h
  obtain ⟨vs, hvs, hread⟩ := isSome_asArray_bind_iff.mp hitems
  have hkeep : ∀ k, k ≠ "items" → (doc.patch c.removeWrite).get? k = doc.get? k :=
    fun k hk => Fields.get?_patch_of_notMem (fun hmem => hk (List.mem_singleton.mp hmem)) doc
  have hitems' : (doc.patch c.removeWrite).get? "items"
      = some (.array (remove vs [c.order.toMap])) := by
    show (doc.set "items" (.array (remove (elements (doc.get? "items")) _))).get? "items" = _
    rw [Fields.get?_set, if_pos rfl, hvs]
    rfl
  refine OrderCartModel.isSome_fromMap_patch h ?_ ?_
    ⟨_, hitems', forall_ofValue_remove hread _⟩ ?_
  · show ∀ k ∈ orderedFields, k ∉ ["items"]
    decide
  · rw [hkeep "status" (by decide)]
    exact hstatus
  · rw [hkeep "deliveredQuantity" (by decide)]
    exact hdelivered

/-- **The second write of a dispatch** leaves an order that can be read: a
delivered quantity that is an integer is incremented to one. -/
theorem isSome_fromMap_addWrite {doc : Fields} (h : (OrderCartModel.fromMap doc).isSome)
    (c : DispatchCall) : (OrderCartModel.fromMap (doc.patch c.addWrite)).isSome := by
  obtain ⟨-, -, -, -, hitems, -, hdelivered⟩ := OrderCartModel.isSome_fromMap_iff.mp h
  obtain ⟨vs, hvs, hread⟩ := isSome_asArray_bind_iff.mp hitems
  obtain ⟨n, hn⟩ := Option.isSome_iff_exists.mp hdelivered
  rw [asInt_eq_some] at hn
  have hget : ∀ k, (doc.patch c.addWrite).get? k
      = if k = "status" then some (.string c.status.toText)
        else if k = "deliveredQuantity" then some (.int (safeIncrement n c.dispatched))
        else if k = "items" then some (.array (union vs [c.dispatchedOrder.toMap]))
        else doc.get? k := by
    intro k
    show Fields.get? (Fields.set (Fields.set (doc.set "items" _) "deliveredQuantity" _)
      "status" _) k = _
    rw [Fields.get?_set, Fields.get?_set, Fields.get?_set, hvs, hn]
    rfl
  refine OrderCartModel.isSome_fromMap_patch h ?_ ?_
    ⟨_, hget "items", forall_ofValue_union hread _⟩ ?_
  · show ∀ k ∈ orderedFields, k ∉ ["items", "deliveredQuantity", "status"]
    decide
  · rw [hget]
    rfl
  · rw [hget]
    rfl

/-- **A line added to a cart** leaves a cart that can be read. -/
theorem isSome_cartItems_patch {doc : Fields} (h : (cartItems doc).isSome) (order : OrderModel) :
    (cartItems (doc.patch (addToCartWrite order))).isSome := by
  obtain ⟨vs, hvs, hread⟩ := isSome_asArray_bind_iff.mp h
  refine isSome_asArray_bind_iff.mpr
    ⟨union vs [order.toMap], ?_, forall_ofValue_union hread order⟩
  show Fields.get? (doc.set "items" (.array (union (elements (doc.get? "items")) _))) "items" = _
  rw [Fields.get?_set, if_pos rfl, hvs]
  rfl

/-! ## The collections and their writers -/

/-- **The collections of the program.** -/
structure Documents where
  users : Collection
  products : Collection
  orders : Collection
  cart : Collection
  ndp : Collection

/-- A write of the program. -/
inductive DocumentWrite where
  /-- `AuthProvider.register` puts a user. -/
  | register (u : UserModel)
  /-- `NewUserDialog` puts a user, with a name. -/
  | newUser (uid name : String)
  /-- The approval switch of a user is tapped. -/
  | approve (uid : String) (isApproved : Bool)
  /-- A product is created, updated, deleted or imported, or a special price
  set. -/
  | product (a : ProductAction)
  /-- `addToCart` patches the cart of a user. -/
  | cartUpdate (uid : String) (order : OrderModel)
  /-- `addToCart` puts a cart, having found none. -/
  | cartSet (uid : String) (order : OrderModel)
  /-- Checkout deletes the cart of a user. -/
  | cartDelete (uid : String)
  /-- `cartToOrder` puts an order. -/
  | cartToOrder (uid : String) (dt : DateTime) (products : List OrderModel)
  /-- The first write of `updateDispatchAmount`. -/
  | removeLine (cartId : String) (c : DispatchCall)
  /-- The second write of `updateDispatchAmount`. -/
  | addLine (cartId : String) (c : DispatchCall)
  /-- `proceedUpload` puts a request. -/
  | proceedUpload (m : NDPModel)
  deriving DecidableEq, Repr

/-- The document `NewUserDialog` puts. -/
def newUserDoc (uid name : String) : Fields := [("name", .string name), ("uid", .string uid)]

/-- **One write.** -/
def writeStep (s : Documents) : DocumentWrite → Option Documents
  | .register u => some { s with users := s.users.set u.uid (Fields.values u.toMap) }
  | .newUser uid name =>
    some { s with users := s.users.set uid (Fields.values (newUserDoc uid name)) }
  | .approve uid isApproved =>
    (s.users.update uid (approveWrite isApproved)).map (fun users => { s with users := users })
  | .product a =>
    (productStep s.products a).map (fun products => { s with products := products })
  | .cartUpdate uid order =>
    (s.cart.update uid (addToCartWrite order)).map (fun cart => { s with cart := cart })
  | .cartSet uid order => some { s with cart := s.cart.set uid (addToCartWrite order) }
  | .cartDelete uid => some { s with cart := s.cart.delete uid }
  | .cartToOrder uid dt products =>
    some { s with
      orders := s.orders.set (toString dt.millisecondsSinceEpoch)
        (Fields.values (cartToOrder uid dt products).toMap) }
  | .removeLine cartId c =>
    (s.orders.update cartId c.removeWrite).map (fun orders => { s with orders := orders })
  | .addLine cartId c =>
    (s.orders.update cartId c.addWrite).map (fun orders => { s with orders := orders })
  | .proceedUpload m =>
    if (∀ e ∈ m.entries, e ≠ "") ∧ m.dateTime.InRange then
      some { s with
        ndp := s.ndp.set (toString m.dateTime.millisecondsSinceEpoch) (Fields.values m.toMap) }
    else none

section Print

variable (print : Value → String)

/-- **Every document can be read back** by the decoder of its collection. -/
structure AllReadable (s : Documents) : Prop where
  users : s.users.Each (fun _ doc => (UserModel.fromMap doc).isSome)
  products : s.products.Each (fun _ doc => (ProductModel.fromMap print doc).isSome)
  orders : s.orders.Each (fun _ doc => (OrderCartModel.fromMap doc).isSome)
  cart : s.cart.Each (fun _ doc => (cartItems doc).isSome)
  ndp : s.ndp.Each (fun _ doc => (NDPModel.fromMap doc).isSome)

/-- **The user is written whole**: it is not created through
`NewUserDialog`. -/
def WritesWholeUser (_ : Documents) : DocumentWrite → Prop
  | .newUser _ _ => False
  | _ => True

/-- What is so between the writes: every document can be read, and special
prices are maps. -/
structure DocumentsKept (s : Documents) : Prop where
  readable : AllReadable print s
  products : s.products.Each (fun _ doc => IsProductDoc print doc)

variable {print} {s s' : Documents}

/-- A user without an e-mail address cannot be read. -/
theorem fromMap_newUserDoc (uid name : String) :
    UserModel.fromMap (newUserDoc uid name) = none := by
  simp [UserModel.fromMap, newUserDoc, Fields.get?_cons, Fields.get?_nil, asString]

/-- The fields of what `NewUserDialog` puts are in the order of their names. -/
theorem newUserDoc_sorted (uid name : String) : Fields.Sorted (newUserDoc uid name) := by
  have hnames : ["name", "uid"].Pairwise (fun k l => precedes k.toList l.toList = true) := by
    decide
  exact hnames

/-- A document put whole that can be read may be put anywhere. -/
theorem Firestore.Collection.Each.set_values {c : Collection} {P : String → Fields → Prop}
    (h : c.Each P) {k : String} {d : Fields} (hd : d.Sorted) (hP : P k d) :
    Collection.Each (c.set k (Fields.values d)) P := by
  unfold Collection.set
  rw [Fields.ofUpdate_values hd]
  exact Collection.Each.put h hP

/-- **A write that is not `NewUserDialog`'s** leaves documents that can be
read. -/
theorem DocumentsKept.step (h : DocumentsKept print s) {w : DocumentWrite}
    (hC : WritesWholeUser s w) (hstep : writeStep s w = some s') : DocumentsKept print s' := by
  obtain ⟨⟨husers, hproducts, horders, hcart, hndp⟩, hmaps⟩ := h
  cases w with
  | register u =>
    obtain rfl := Option.some.inj hstep
    refine ⟨⟨husers.set_values u.toMap_sorted ?_, hproducts, horders, hcart, hndp⟩, hmaps⟩
    rw [UserModel.fromMap_toMap]
    rfl
  | newUser uid name => exact hC.elim
  | approve uid isApproved =>
    obtain ⟨users, husers', rfl⟩ := Option.map_eq_some_iff.mp hstep
    obtain ⟨doc, hdoc, rfl⟩ := Option.map_eq_some_iff.mp husers'
    exact ⟨⟨husers.put (isSome_fromMap_approve (husers uid doc hdoc) isApproved), hproducts,
      horders, hcart, hndp⟩, hmaps⟩
  | product a =>
    obtain ⟨products, hproducts', rfl⟩ := Option.map_eq_some_iff.mp hstep
    have hmaps' := isProductDoc_step hmaps hproducts'
    exact ⟨⟨husers, fun k doc hdoc => (hmaps' k doc hdoc).decodes, horders, hcart, hndp⟩, hmaps'⟩
  | cartUpdate uid order =>
    obtain ⟨cart, hcart', rfl⟩ := Option.map_eq_some_iff.mp hstep
    obtain ⟨doc, hdoc, rfl⟩ := Option.map_eq_some_iff.mp hcart'
    exact ⟨⟨husers, hproducts, horders,
      hcart.put (isSome_cartItems_patch (hcart uid doc hdoc) order), hndp⟩, hmaps⟩
  | cartSet uid order =>
    obtain rfl := Option.some.inj hstep
    refine ⟨⟨husers, hproducts, horders, hcart.put ?_, hndp⟩, hmaps⟩
    rw [ofUpdate_addToCartWrite, cartItems_cartDoc]
    rfl
  | cartDelete uid =>
    obtain rfl := Option.some.inj hstep
    exact ⟨⟨husers, hproducts, horders, hcart.delete uid, hndp⟩, hmaps⟩
  | cartToOrder uid dt products =>
    obtain rfl := Option.some.inj hstep
    refine ⟨⟨husers, hproducts, horders.set_values (OrderCartModel.toMap_sorted _) ?_, hcart,
      hndp⟩, hmaps⟩
    rw [OrderCartModel.fromMap_toMap]
    rfl
  | removeLine cartId c =>
    obtain ⟨orders, horders', rfl⟩ := Option.map_eq_some_iff.mp hstep
    obtain ⟨doc, hdoc, rfl⟩ := Option.map_eq_some_iff.mp horders'
    exact ⟨⟨husers, hproducts,
      horders.put (isSome_fromMap_removeWrite (horders cartId doc hdoc) c), hcart, hndp⟩, hmaps⟩
  | addLine cartId c =>
    obtain ⟨orders, horders', rfl⟩ := Option.map_eq_some_iff.mp hstep
    obtain ⟨doc, hdoc, rfl⟩ := Option.map_eq_some_iff.mp horders'
    exact ⟨⟨husers, hproducts,
      horders.put (isSome_fromMap_addWrite (horders cartId doc hdoc) c), hcart, hndp⟩, hmaps⟩
  | proceedUpload m =>
    by_cases hguard : (∀ e ∈ m.entries, e ≠ "") ∧ m.dateTime.InRange
    · simp only [writeStep, if_pos hguard, Option.some.injEq] at hstep
      subst hstep
      refine ⟨⟨husers, hproducts, horders, hcart, hndp.set_values m.toMap_sorted ?_⟩, hmaps⟩
      rw [NDPModel.fromMap_toMap m hguard.2]
      rfl
    · simp [writeStep, hguard] at hstep

/-- **A user created through `NewUserDialog`** cannot be read. -/
theorem not_allReadable {w : DocumentWrite} (hC : ¬ WritesWholeUser s w)
    (hstep : writeStep s w = some s') : ¬ AllReadable print s' := by
  intro hlaw
  cases w with
  | newUser uid name =>
    obtain rfl := Option.some.inj hstep
    have hput : s.users.set uid (Fields.values (newUserDoc uid name)) uid
        = some (newUserDoc uid name) := by
      rw [Collection.set_self, Fields.ofUpdate_values (newUserDoc_sorted uid name)]
    have hread : (UserModel.fromMap (newUserDoc uid name)).isSome = true :=
      hlaw.users uid (newUserDoc uid name) hput
    rw [fromMap_newUserDoc] at hread
    exact Bool.false_ne_true hread
  | register _ | approve _ _ | product _ | cartUpdate _ _ | cartSet _ _ | cartDelete _
  | cartToOrder _ _ _ | removeLine _ _ | addLine _ _ | proceedUpload _ => exact hC trivial

/-- **When every document can be read back.** From any documents that can, in
any run of writes by all the program's writers with any field values, every
document can be read by the decoder of its collection – exactly when no user is
created through `NewUserDialog`. -/
theorem readable_iff (s : Documents) (h : DocumentsKept print s) (ws : List DocumentWrite) :
    Runs.Along writeStep (AllReadable print) s ws
      ↔ Runs.Meets writeStep WritesWholeUser s ws :=
  Runs.along_iff_meets (I := DocumentsKept print) (fun _ hI => hI.readable)
    (fun _ _ _ hI hC hstep => hI.step hC hstep)
    (fun _ _ _ _ hC hstep => not_allReadable hC hstep) h

end Print

/-- The collections before anything is written. -/
def Documents.empty : Documents :=
  ⟨fun _ => none, fun _ => none, fun _ => none, fun _ => none, fun _ => none⟩

/-- Nothing in them cannot be read. -/
theorem documentsKept_empty : DocumentsKept (fun _ => "") Documents.empty := by
  have hnone : ∀ P, Collection.Each (fun _ => none) P := fun P _ _ hdoc => nomatch hdoc
  exact ⟨⟨hnone _, hnone _, hnone _, hnone _, hnone _⟩, hnone _⟩

/-- The law at work: a user registers and is approved. -/
theorem readable_iff_approved :
    Runs.Along writeStep (AllReadable (fun _ => "")) Documents.empty
        [.register ⟨"e", "u", "n", "a", false, ⟨0⟩⟩, .approve "u" true]
      ↔ Runs.Meets writeStep WritesWholeUser Documents.empty
        [.register ⟨"e", "u", "n", "a", false, ⟨0⟩⟩, .approve "u" true] :=
  readable_iff Documents.empty documentsKept_empty
    [.register ⟨"e", "u", "n", "a", false, ⟨0⟩⟩, .approve "u" true]

/-- **A user that cannot be read**, created by an administrator. -/
theorem new_user_unreadable :
    ¬ ∀ (s : Documents), DocumentsKept (fun _ => "") s → ∀ ws : List DocumentWrite,
      Runs.Along writeStep (AllReadable (fun _ => "")) s ws := by
  intro h
  have hlaw := (h Documents.empty documentsKept_empty [.newUser "u" "name"]).last rfl
  exact not_allReadable (w := .newUser "u" "name") (s := Documents.empty) id rfl hlaw
