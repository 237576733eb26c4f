import Enmart.Orders.Dispatch

/-!
# A dispatch that stops half way

The two writes of a call are two requests. The first may fail, the second
may fail, and the client may stop between them; nothing takes the first
write back. Between the two the line is in no document at all, and anyone
may read the order there – which also happens in every call that completes.

So a call is all-or-nothing exactly when its first write does not land, or
has nothing to remove. The remaining way to get away with it is an order
that holds a second entry under the same identifier, which stands in for the
line while the call completes (`all_or_nothing_iff`).
-/

open Firestore SetArray

/-- How far a call gets. -/
inductive CallEnd where
  /-- The first write fails. -/
  | notWritten
  /-- The second write fails, or the client stops before it. -/
  | halfWritten
  /-- Both writes land. -/
  | completed
  deriving DecidableEq, Repr

/-- The document a call leaves. -/
def CallEnd.leaves (t : CallEnd) (c : DispatchCall) (doc : Fields) : Fields :=
  match t with
  | .notWritten => doc
  | .halfWritten => doc.patch c.removeWrite
  | .completed => updateDispatchAmount c doc

/-- The documents another client can read while the call is in progress. -/
def CallEnd.seen (t : CallEnd) (c : DispatchCall) (doc : Fields) : List Fields :=
  match t with
  | .notWritten => [doc]
  | .halfWritten => [doc, doc.patch c.removeWrite]
  | .completed => [doc, doc.patch c.removeWrite, updateDispatchAmount c doc]

/-- The document has an entry for every line of an order. -/
def HasEveryLine (m : OrderCartModel) (doc : Fields) : Prop :=
  ∃ m', OrderCartModel.fromMap doc = some m'
    ∧ ∀ l ∈ m.items, ∃ e ∈ m'.items, e.orderId = l.orderId

/-- **All or nothing**: a call that does not complete leaves the document as
it was, and nobody reads one that lacks a line. -/
structure AllOrNothing (m : OrderCartModel) (c : DispatchCall) (t : CallEnd) : Prop where
  nothing : t ≠ .completed → t.leaves c m.toMap = m.toMap
  complete : ∀ doc ∈ t.seen c m.toMap, HasEveryLine m doc

/-- Having every line, of a document that stands for an order. -/
theorem hasEveryLine_toMap (m m' : OrderCartModel) :
    HasEveryLine m m'.toMap
      ↔ ∀ l ∈ m.items, ∃ e ∈ m'.items, e.orderId = l.orderId :=
  m'.exists_fromMap_toMap (fun m' => ∀ l ∈ m.items, ∃ e ∈ m'.items, e.orderId = l.orderId)

/-- An order has all its own lines. -/
theorem hasEveryLine_self (m : OrderCartModel) : HasEveryLine m m.toMap :=
  (hasEveryLine_toMap m m).mpr (fun l hl => ⟨l, hl, rfl⟩)

/-- A line removed that was not there leaves the order as it was. -/
theorem OrderCartModel.removeLine_eq_self_iff {m : OrderCartModel} {o : OrderModel} :
    m.removeLine o = m ↔ o ∉ m.items := by
  constructor
  · intro h
    have hitems : remove m.items [o] = m.items := congrArg OrderCartModel.items h
    exact remove_eq_self_iff.mp hitems
  · intro h
    unfold OrderCartModel.removeLine
    rw [remove_of_notMem h]

/-- **Between the writes a line is missing** unless it was not there to
remove, or another entry bears its identifier. -/
theorem hasEveryLine_removeLine (m : OrderCartModel) (o : OrderModel) :
    HasEveryLine m (m.removeLine o).toMap
      ↔ o ∉ m.items ∨ ∃ e ∈ m.items, e ≠ o ∧ e.orderId = o.orderId := by
  rw [hasEveryLine_toMap]
  constructor
  · intro h
    by_cases ho : o ∈ m.items
    · obtain ⟨e, he, hid⟩ := h o ho
      obtain ⟨hmem, hne⟩ := mem_remove.mp he
      exact Or.inr ⟨e, hmem, fun heq => hne (List.mem_singleton.mpr heq), hid⟩
    · exact Or.inl ho
  · intro h l hl
    by_cases hlo : l = o
    · subst hlo
      obtain hl' | ⟨e, he, hne, hid⟩ := h
      · exact absurd hl hl'
      · exact ⟨e, mem_remove.mpr ⟨he, fun hc => hne (List.mem_singleton.mp hc)⟩, hid⟩
    · exact ⟨l, mem_remove.mpr ⟨hl, fun hc => hlo (List.mem_singleton.mp hc)⟩, rfl⟩

/-- After both writes every line is there. -/
theorem hasEveryLine_dispatch (m : OrderCartModel) (c : DispatchCall) :
    HasEveryLine m (m.dispatch c).toMap := by
  refine (hasEveryLine_toMap m (m.dispatch c)).mpr (fun l hl => ?_)
  by_cases hlo : l = c.order
  · subst hlo
    exact ⟨c.dispatchedOrder, mem_union_singleton.mpr (Or.inr rfl), rfl⟩
  · exact ⟨l, mem_union_singleton.mpr (Or.inl (mem_remove.mpr
      ⟨hl, fun hc => hlo (List.mem_singleton.mp hc)⟩)), rfl⟩

/-- **When a call is all-or-nothing.** It is if its first write fails, or
has nothing to remove, or if it completes on an order in which another entry
has the line's identifier – and in no other case. -/
theorem all_or_nothing_iff (m : OrderCartModel) (c : DispatchCall) (t : CallEnd) :
    AllOrNothing m c t
      ↔ t = .notWritten ∨ c.order ∉ m.items
        ∨ (t = .completed ∧ ∃ e ∈ m.items, e ≠ c.order ∧ e.orderId = c.order.orderId) := by
  have hfirst := m.patch_removeWrite c
  have hself := hasEveryLine_self m
  have hgap := hasEveryLine_removeLine m c.order
  cases t with
  | notWritten =>
    refine ⟨fun _ => Or.inl rfl, fun _ => ⟨fun _ => rfl, fun doc hdoc => ?_⟩⟩
    rw [List.mem_singleton.mp hdoc]
    exact hself
  | halfWritten =>
    constructor
    · rintro ⟨hnothing, -⟩
      have heq : (m.removeLine c.order).toMap = m.toMap := by
        rw [← hfirst]
        exact hnothing (by decide)
      exact Or.inr (Or.inl (OrderCartModel.removeLine_eq_self_iff.mp
        (OrderCartModel.toMap_injective heq)))
    · rintro (ht | hmem | ⟨ht, -⟩)
      · exact absurd ht (by decide)
      · have hsame : m.toMap.patch c.removeWrite = m.toMap := by
          rw [hfirst, OrderCartModel.removeLine_eq_self_iff.mpr hmem]
        refine ⟨fun _ => hsame, fun doc hdoc => ?_⟩
        rcases List.mem_cons.mp hdoc with rfl | hdoc
        · exact hself
        · rw [List.mem_singleton.mp hdoc, hsame]
          exact hself
      · exact absurd ht (by decide)
  | completed =>
    constructor
    · rintro ⟨-, hcomplete⟩
      have hmid : HasEveryLine m (m.removeLine c.order).toMap := by
        rw [← hfirst]
        exact hcomplete _ (List.mem_cons_of_mem _ (List.mem_cons_self ..))
      rcases hgap.mp hmid with hmem | hother
      · exact Or.inr (Or.inl hmem)
      · exact Or.inr (Or.inr ⟨rfl, hother⟩)
    · intro h
      have hmid : HasEveryLine m (m.removeLine c.order).toMap := by
        rcases h with ht | hmem | ⟨-, hother⟩
        · exact absurd ht (by decide)
        · exact hgap.mpr (Or.inl hmem)
        · exact hgap.mpr (Or.inr hother)
      refine ⟨fun ht => absurd rfl ht, fun doc hdoc => ?_⟩
      rcases List.mem_cons.mp hdoc with rfl | hdoc
      · exact hself
      · rcases List.mem_cons.mp hdoc with rfl | hdoc
        · rw [hfirst]
          exact hmid
        · rw [List.mem_singleton.mp hdoc, OrderCartModel.updateDispatchAmount_toMap]
          exact hasEveryLine_dispatch m c

/-- **A line lost half way**: the call on the only line of an order stops
after its first write, and the order is left without lines. -/
theorem line_lost_half_way :
    ¬ ∀ (m : OrderCartModel) (c : DispatchCall) (t : CallEnd), AllOrNothing m c t := by
  intro h
  let l : OrderModel := ⟨"1", ⟨0⟩, .inCart, "p", 2, 0⟩
  let m : OrderCartModel := ⟨"7", "u", ⟨0⟩, [l], .pending, 2, 0⟩
  have hnothing := (h m (QuantityUpdate.call ⟨l, m⟩ 1) .halfWritten).nothing (by decide)
  exact absurd hnothing (by decide)
