import Enmart.Cart.Checkout
import Enmart.Orders.Dispatch

/-!
# Lines as they are stored and as they are read

`updateDispatchAmount` takes a line out of a document by deep equality with
the *re-encoded* line, so it finds what it was opened on only if encoding
undoes decoding. Decoding is more tolerant than that: a missing dispatched
count, or one that is a text, is read as a number, a status the program no
longer has is read as `pending`, fields the model does not have are passed
over, and a platform whose `DateTime` counts milliseconds rounds the instant.

A stored value the encoder could have made is one `inStoredForm` accepts, and
these are exactly the values encoding gives back (`inStoredForm_iff`). A
dispatch replaces its line when the line is stored in that form, once, and
nothing else in the document is read as the line or is stored as what it
becomes (`replacesLine_iff`).

The documents the program itself makes are never in any other form: an order
placed by checkout, and any number of whole calls on it, are documents that
encode what they decode to (`orders_round_trip`).
-/

open Firestore SetArray

namespace OrderModel

/-- The line a stored value is read as, on a platform of a given precision. -/
def ofValueAt (p : DateTime.Precision) (v : Value) : Option OrderModel :=
  (ofValue v).map (fun o =>
    { o with successAt := DateTime.ofTimestampAt p o.successAt.toTimestamp })

/-- A line read is encoded as one that is read the same. -/
theorem ofValueAt_toMap {p : DateTime.Precision} {v : Value} {e : OrderModel}
    (h : ofValueAt p v = some e) : ofValueAt p e.toMap = some e := by
  obtain ⟨o, -, rfl⟩ := Option.map_eq_some_iff.mp h
  rw [ofValueAt, ofValue_toMap, Option.map_some, DateTime.ofTimestampAt_toTimestamp]

/-- The dispatched count is no part of the instant. -/
theorem ofValueAt_toMap_withDispatched {p : DateTime.Precision} {v : Value} {e : OrderModel}
    (h : ofValueAt p v = some e) (d : Int64) :
    ofValueAt p (e.withDispatched d).toMap = some (e.withDispatched d) := by
  obtain ⟨o, -, rfl⟩ := Option.map_eq_some_iff.mp h
  rw [ofValueAt, ofValue_toMap, Option.map_some]
  simp only [withDispatched, DateTime.ofTimestampAt_toTimestamp]

/-- The names of the fields of a stored line. -/
def fieldNames : List String :=
  ["dispatched", "orderId", "productId", "quantity", "status", "successAt"]

/-- **The form the encoder stores a line in**: the fields of a line and no
other, the dispatched count an integer, the status one of the program's, the
instant one the platform reads without loss. -/
def inStoredForm (p : DateTime.Precision) (v : Value) : Bool :=
  match v with
  | .map fs =>
    fs.map Prod.fst = fieldNames
      && (asInt (Fields.get? fs "dispatched")).isSome
      && (asString (Fields.get? fs "status")).any
        (fun s => (stringToStatusEnum s).toText = s)
      && (asTimestamp (Fields.get? fs "successAt")).any p.keeps
  | _ => false

/-- What `fromMap` reads, field by field. -/
theorem fromMap_eq_some {fs : Fields} {o : OrderModel} (h : fromMap fs = some o) :
    Fields.get? fs "orderId" = some (.string o.orderId)
      ∧ Fields.get? fs "successAt" = some (.timestamp o.successAt.toTimestamp)
      ∧ (∃ s, Fields.get? fs "status" = some (.string s) ∧ o.status = stringToStatusEnum s)
      ∧ Fields.get? fs "productId" = some (.string o.productId)
      ∧ Fields.get? fs "quantity" = some (.int o.quantity)
      ∧ o.dispatched = (tryParseInterpolated (Fields.get? fs "dispatched")).getD 0 := by
  unfold fromMap at h
  obtain ⟨orderId, hid, h⟩ := Option.bind_eq_some_iff.mp h
  obtain ⟨successAt, hat, h⟩ := Option.bind_eq_some_iff.mp h
  obtain ⟨status, hs, h⟩ := Option.bind_eq_some_iff.mp h
  obtain ⟨productId, hp, h⟩ := Option.bind_eq_some_iff.mp h
  obtain ⟨quantity, hq, h⟩ := Option.bind_eq_some_iff.mp h
  obtain rfl := Option.some.inj h
  exact ⟨asString_eq_some.mp hid, asTimestamp_eq_some.mp hat,
    ⟨status, asString_eq_some.mp hs, rfl⟩, asString_eq_some.mp hp, asInt_eq_some.mp hq, rfl⟩

/-- What the encoder makes of a line that was read is in the form it stores. -/
theorem inStoredForm_toMap {p : DateTime.Precision} {v : Value} {e : OrderModel}
    (h : ofValueAt p v = some e) : inStoredForm p e.toMap = true := by
  obtain ⟨o, -, rfl⟩ := Option.map_eq_some_iff.mp h
  simp [inStoredForm, toMap, fieldNames, Fields.get?_cons, asInt, asString, asTimestamp,
    DateTime.Precision.keeps]

/-- **A stored value is what its line encodes to** exactly when it is in the
form the encoder stores. -/
theorem inStoredForm_iff {p : DateTime.Precision} {v : Value} {e : OrderModel}
    (h : ofValueAt p v = some e) : inStoredForm p v = true ↔ v = e.toMap := by
  constructor
  · intro hform
    obtain ⟨o, ho, rfl⟩ := Option.map_eq_some_iff.mp h
    obtain ⟨fs, hfs, ho⟩ := Option.bind_eq_some_iff.mp ho
    cases v with
    | map fs' =>
      obtain rfl : fs' = fs := Option.some.inj hfs
      simp only [inStoredForm, Bool.and_eq_true, decide_eq_true_eq] at hform
      obtain ⟨⟨⟨hnames, hint⟩, hstatus⟩, hkeeps⟩ := hform
      obtain ⟨hid, hat, ⟨s, hs, hos⟩, hp, hq, hd⟩ := fromMap_eq_some ho
      obtain ⟨d, hd'⟩ := Option.isSome_iff_exists.mp hint
      rw [asInt_eq_some] at hd'
      rw [hs] at hstatus
      have hs' : (stringToStatusEnum s).toText = s := of_decide_eq_true hstatus
      rw [hat] at hkeeps
      have hat' : (DateTime.ofTimestampAt p o.successAt.toTimestamp).toTimestamp
          = o.successAt.toTimestamp := of_decide_eq_true hkeeps
      rw [hd', tryParseInterpolated_int] at hd
      refine congrArg Value.map (Fields.eq_of_get? ?_ hnames ?_)
      · rw [hnames]
        decide
      · intro k hk
        rw [hnames] at hk
        -- the fields of a line, one by one
        simp only [fieldNames, List.mem_cons, List.not_mem_nil, or_false] at hk
        rcases hk with rfl | rfl | rfl | rfl | rfl | rfl
        · simp [hd', hd, Fields.get?_cons]
        · simp [hid, Fields.get?_cons]
        · simp [hp, Fields.get?_cons]
        · simp [hq, Fields.get?_cons]
        · simp [hs, hos, hs', Fields.get?_cons]
        · simp [hat, hat', Fields.get?_cons]
    | scalar s => exact absurd hfs (by simp [asMap])
    | array vs => exact absurd hfs (by simp [asMap])
  · intro hv
    rw [hv]
    exact inStoredForm_toMap h

end OrderModel

/-! ## What a dispatch does to the stored lines -/

/-- The lines of a document, as they are stored. -/
def storedLines (doc : Fields) : List Value := elements (doc.get? "items")

/-- **A call on the stored lines**: what equals the encoded line is taken out,
and the encoded line with its new count is put in. -/
theorem storedLines_updateDispatchAmount (c : DispatchCall) (doc : Fields) :
    storedLines (updateDispatchAmount c doc)
      = union (remove (storedLines doc) [c.order.toMap]) [c.dispatchedOrder.toMap] := by
  have hremove : (doc.patch c.removeWrite).get? "items"
      = some (.array (remove (storedLines doc) [c.order.toMap])) := by
    show Fields.get? (doc.set "items" _) "items" = _
    rw [Fields.get?_set, if_pos rfl]
    rfl
  show elements (Fields.get? (Fields.set (Fields.set (Fields.set _ "items" _)
    "deliveredQuantity" _) "status" _) "items") = _
  rw [Fields.get?_set, if_neg (by decide), Fields.get?_set, if_neg (by decide),
    Fields.get?_set, if_pos rfl, hremove]
  rfl

/-- **A dispatch replaces the line it is called with**: the document has as
many lines as before, and none that is read as the line undispatched. -/
structure ReplacesLine (p : DateTime.Precision) (doc : Fields) (c : DispatchCall) : Prop where
  count : (storedLines (updateDispatchAmount c doc)).length = (storedLines doc).length
  gone : c.dispatched ≠ 0 → ∀ w ∈ storedLines (updateDispatchAmount c doc),
    ∀ l, OrderModel.ofValueAt p w = some l →
      l.orderId = c.order.orderId → l.dispatched ≠ c.order.dispatched

/-- **A line a dispatch can find**: one stored line has the encoder's form and
is read as it; unless the amount is zero, all that is read with its identifier
and its count is that one, and the line with the amount booked is not stored
yet. -/
structure IsReplaceable (p : DateTime.Precision) (vs : List Value) (c : DispatchCall) :
    Prop where
  once : vs.countP (fun w => OrderModel.inStoredForm p w
    && OrderModel.ofValueAt p w = some c.order) = 1
  only : c.dispatched ≠ 0 → ∀ w ∈ vs, ∀ l, OrderModel.ofValueAt p w = some l →
    l.orderId = c.order.orderId → l.dispatched = c.order.dispatched →
      OrderModel.inStoredForm p w = true ∧ l = c.order
  fresh : c.dispatched ≠ 0 → ∀ w ∈ vs,
    OrderModel.ofValueAt p w = some (c.order.withDispatched (c.order.dispatched + c.dispatched)) →
      OrderModel.inStoredForm p w = false

section Replacing

variable {p : DateTime.Precision} {v : Value} {e : OrderModel} {vs : List Value}

/-- What is read as a line and has the encoder's form is what the line encodes
to. -/
theorem OrderModel.eq_toMap_iff (h : ofValueAt p v = some e) (w : Value) :
    w = e.toMap ↔ inStoredForm p w = true ∧ ofValueAt p w = some e := by
  constructor
  · rintro rfl
    exact ⟨inStoredForm_toMap h, ofValueAt_toMap h⟩
  · rintro ⟨hform, hw⟩
    exact (inStoredForm_iff hw).mp hform

/-- The stored lines in the stored form that are read as a line are as many as its
encoding occurs. -/
theorem OrderModel.count_toMap (h : ofValueAt p v = some e) (vs : List Value) :
    vs.count e.toMap = vs.countP (fun w => inStoredForm p w && ofValueAt p w = some e) := by
  refine List.countP_congr (fun w _ => ?_)
  rw [beq_iff_eq, eq_toMap_iff h, Bool.and_eq_true, decide_eq_true_eq]

/-- An amount that is not zero changes the count. -/
theorem Int64.add_ne_self {a b : Int64} (h : b ≠ 0) : a + b ≠ a := by
  intro hc
  refine h ?_
  have hz : b = a + b - a := by rw [Int64.add_comm, Int64.add_sub_cancel]
  rw [hz, hc, Int64.sub_self]

variable {doc : Fields} {c : DispatchCall}

/-- A line of which nothing is booked is put back as it was. -/
theorem DispatchCall.dispatchedOrder_of_zero (h : c.dispatched = 0) :
    c.dispatchedOrder = c.order := by
  show c.order.withDispatched (c.order.dispatched + c.dispatched) = c.order
  rw [h, Int64.add_zero]
  rfl

/-- A line of which something is booked is put back as another. -/
theorem DispatchCall.toMap_dispatchedOrder_ne (h : c.dispatched ≠ 0) :
    c.dispatchedOrder.toMap ≠ c.order.toMap := by
  intro hc
  have hd := congrArg OrderModel.dispatched (OrderModel.toMap_injective hc)
  exact Int64.add_ne_self h hd

/-- Once it is taken out, a line of which nothing is booked is not there. -/
theorem notMem_remove_of_zero (h : c.dispatched = 0) (vs : List Value) :
    c.dispatchedOrder.toMap ∉ remove vs [c.order.toMap] := by
  rw [DispatchCall.dispatchedOrder_of_zero h]
  exact fun hmem => (mem_remove.mp hmem).2 (List.mem_singleton_self _)

/-- What was not taken out is stored after the call, and so is what was put
in. -/
theorem mem_storedLines_iff {w : Value} :
    w ∈ storedLines (updateDispatchAmount c doc)
      ↔ w ∈ storedLines doc ∧ w ≠ c.order.toMap ∨ w = c.dispatchedOrder.toMap := by
  rw [storedLines_updateDispatchAmount, mem_union_singleton, mem_remove, List.mem_singleton]

/-- A dispatch that replaces its line leaves nothing behind: what was read with
its identifier and count was stored as it is encoded. -/
theorem ReplacesLine.eq_toMap (h : ReplacesLine p doc c) (hn : c.dispatched ≠ 0) {w : Value}
    (hw : w ∈ storedLines doc) {l : OrderModel} (hl : OrderModel.ofValueAt p w = some l)
    (hid : l.orderId = c.order.orderId) (hd : l.dispatched = c.order.dispatched) :
    w = c.order.toMap := by
  by_contra hne
  exact h.gone hn w (mem_storedLines_iff.mpr (Or.inl ⟨hw, hne⟩)) l hl hid hd

/-- **A line that a dispatch replaces** is one it can find. -/
theorem ReplacesLine.isReplaceable (h : ReplacesLine p doc c) (hv : v ∈ storedLines doc)
    (he : OrderModel.ofValueAt p v = some c.order) : IsReplaceable p (storedLines doc) c := by
  have hcount := OrderModel.count_toMap he (storedLines doc)
  have hlen := h.count
  rw [storedLines_updateDispatchAmount] at hlen
  by_cases hn : c.dispatched = 0
  · -- nothing is booked: the line goes out and comes back
    have hrem := length_remove (storedLines doc) c.order.toMap
    rw [union_of_notMem (notMem_remove_of_zero hn _), List.length_append,
      List.length_singleton] at hlen
    exact ⟨by rw [← hcount]; omega, fun h0 => absurd hn h0, fun h0 => absurd hn h0⟩
  · have hmem : c.order.toMap ∈ storedLines doc := h.eq_toMap hn hv he rfl rfl ▸ hv
    obtain ⟨hone, hfresh⟩ := count_of_length_replace hmem hlen
    refine ⟨by rw [← hcount]; exact hone, fun _ w hw l hl hid hd => ?_, fun _ w hw hl => ?_⟩
    · obtain rfl := h.eq_toMap hn hw hl hid hd
      rw [OrderModel.ofValueAt_toMap he] at hl
      exact ⟨OrderModel.inStoredForm_toMap he, (Option.some.inj hl).symm⟩
    · refine Bool.eq_false_iff.mpr (fun hform => hfresh (mem_remove.mpr ?_))
      obtain rfl := (OrderModel.inStoredForm_iff hl).mp hform
      exact ⟨hw, fun hc =>
        DispatchCall.toMap_dispatchedOrder_ne hn (List.mem_singleton.mp hc)⟩

/-- **A line that a dispatch can find** is one it replaces. -/
theorem IsReplaceable.replacesLine (h : IsReplaceable p (storedLines doc) c)
    (he : OrderModel.ofValueAt p v = some c.order) : ReplacesLine p doc c := by
  obtain ⟨hone, honly, hfresh⟩ := h
  rw [← OrderModel.count_toMap he] at hone
  have hnew : OrderModel.ofValueAt p c.dispatchedOrder.toMap = some c.dispatchedOrder :=
    OrderModel.ofValueAt_toMap_withDispatched he _
  have hnotMem : c.dispatchedOrder.toMap ∉ remove (storedLines doc) [c.order.toMap] := by
    by_cases hn : c.dispatched = 0
    · exact notMem_remove_of_zero hn _
    · intro hmem
      have hform := hfresh hn _ (mem_remove.mp hmem).1 hnew
      rw [OrderModel.inStoredForm_toMap hnew] at hform
      exact Bool.false_ne_true hform.symm
  constructor
  · rw [storedLines_updateDispatchAmount]
    exact length_replace hone hnotMem
  · intro hn w hw l hl hid hd
    rcases mem_storedLines_iff.mp hw with ⟨hw, hne⟩ | rfl
    · obtain ⟨hform, rfl⟩ := honly hn w hw l hl hid hd
      exact hne ((OrderModel.inStoredForm_iff hl).mp hform)
    · obtain rfl := Option.some.inj (hnew.symm.trans hl)
      exact Int64.add_ne_self hn hd

/-- **A dispatch replaces the line it was opened on exactly when it can find
it**: whatever the lines of the document look like, and however the line was
stored. -/
theorem replacesLine_iff {doc : Fields} {c : DispatchCall}
    (hread : ∃ v ∈ storedLines doc, OrderModel.ofValueAt p v = some c.order) :
    ReplacesLine p doc c ↔ IsReplaceable p (storedLines doc) c := by
  obtain ⟨v, hv, he⟩ := hread
  exact ⟨fun h => h.isReplaceable hv he, fun h => h.replacesLine he⟩

end Replacing

/-- An order whose line is stored as checkout stores it. -/
theorem replacesLine_iff_cartLine :
    ReplacesLine .milliseconds (cartToOrder "u" ⟨0⟩ [cartLine "1" 4]).toMap
      ⟨cartLine "1" 4, 2, 4, 0⟩ :=
  (replacesLine_iff ⟨(cartLine "1" 4).toMap, by decide +kernel, by decide +kernel⟩).mpr
    { once := by decide +kernel
      only := fun _ w hw l hl _ _ => by
        obtain rfl := List.mem_singleton.mp
          (show w ∈ [(cartLine "1" 4).toMap] from hw)
        exact ⟨by decide +kernel, (Option.some.inj (hl.symm.trans (by decide +kernel)))⟩
      fresh := fun _ w hw hl => by
        obtain rfl := List.mem_singleton.mp
          (show w ∈ [(cartLine "1" 4).toMap] from hw)
        exact absurd hl (by decide +kernel) }

/-- A line stored without a dispatched count. -/
def uncountedLine : Value :=
  .map [("orderId", .string "1"), ("productId", .string "p"), ("quantity", .int 4),
    ("status", .string "OrderStatus.inCart"), ("successAt", .timestamp ⟨0⟩)]

/-- **A line stored in another form is doubled**: it is read as the line of
the call, and after the call the document has one line more. -/
theorem uncountedLine_doubled :
    OrderModel.ofValueAt .microseconds uncountedLine = some (cartLine "1" 4)
      ∧ ¬ ReplacesLine .microseconds
        (Fields.set (cartToOrder "u" ⟨0⟩ [cartLine "1" 4]).toMap "items"
          (.array [uncountedLine]))
        ⟨cartLine "1" 4, 2, 4, 0⟩ := by
  refine ⟨by decide +kernel, fun h => ?_⟩
  exact absurd h.count (by decide +kernel)

/-! ## Documents the program makes -/

/-- The document checkout puts. -/
def placedOrder (uid : String) (dt : DateTime) (products : List OrderModel) : Fields :=
  Fields.ofUpdate (Fields.values (cartToOrder uid dt products).toMap)

/-- The document some calls leave, each completed before the next starts. -/
def dispatches (cs : List DispatchCall) (doc : Fields) : Fields :=
  cs.foldl (fun doc c => updateDispatchAmount c doc) doc

/-- The document checkout puts is the encoded order. -/
theorem placedOrder_eq (uid : String) (dt : DateTime) (products : List OrderModel) :
    placedOrder uid dt products = (cartToOrder uid dt products).toMap :=
  Fields.ofUpdate_values (OrderCartModel.toMap_sorted _)

/-- Calls on an encoded order leave an encoded order. -/
theorem dispatches_toMap (m : OrderCartModel) (cs : List DispatchCall) :
    dispatches cs m.toMap = (cs.foldl OrderCartModel.dispatch m).toMap := by
  induction cs generalizing m with
  | nil => rfl
  | cons c cs ih =>
    show dispatches cs (updateDispatchAmount c m.toMap) = _
    rw [OrderCartModel.updateDispatchAmount_toMap, ih]
    rfl

/-- **Orders round-trip**: every order is decoded from what it is encoded to,
and every document checkout and any sequence of whole calls lead to is encoded
from what it is decoded to. -/
theorem orders_round_trip :
    (∀ m : OrderCartModel, OrderCartModel.fromMap m.toMap = some m)
      ∧ ∀ (uid : String) (dt : DateTime) (products : List OrderModel)
        (cs : List DispatchCall),
        (OrderCartModel.fromMap (dispatches cs (placedOrder uid dt products))).map
            OrderCartModel.toMap
          = some (dispatches cs (placedOrder uid dt products)) := by
  constructor
  · intro m
    exact OrderCartModel.fromMap_toMap m
  · intro uid dt products cs
    rw [placedOrder_eq, dispatches_toMap, OrderCartModel.fromMap_toMap]
    rfl
