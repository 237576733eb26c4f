import Enmart.Base.Runs
import Enmart.Cart.Provider

/-!
# Adding to a cart from several places

`addToCart` adds its line to the user's cart document in one of two ways. It
patches the document, and where there is none the patch is refused as *not
found* and the line is put as a document of its own, replacing whatever is
there by then. Nothing joins the two requests: between the refusal and the
document that is put other calls may have put theirs.

`addingStep` is the cart document of one user and any number of calls, from
one device or from several, their requests reaching the store in any order
that keeps each call's two. A call completes when the store has taken its
line. Every line so taken stays in the document until checkout deletes it,
exactly when no document put lands on one that has another line
(`adds_kept_iff`).
-/

open Firestore SetArray

/-- How far a call of `addToCart` has come. -/
inductive AddPhase where
  /-- The document is to be patched. -/
  | updating
  /-- There was none to patch, and one is to be put. -/
  | setting
  deriving DecidableEq, Repr

/-- A call of `addToCart` under way. -/
structure AddCall where
  order : OrderModel
  phase : AddPhase
  deriving DecidableEq, Repr

/-- **The cart document of a user, and the calls under way.** -/
structure AddingState where
  doc : Option Fields
  calls : List AddCall
  /-- The lines of the completed calls, since the document was last
  deleted. -/
  added : List OrderModel
  deriving DecidableEq

/-- What happens next. -/
inductive AddingAction where
  /-- `addToCart` is called, on any device. -/
  | call (order : OrderModel)
  /-- The patch of a call reaches the store. -/
  | update (i : ℕ)
  /-- The document a call puts reaches the store. -/
  | set (i : ℕ)
  /-- The request of a call meets another error. -/
  | fail (i : ℕ)
  /-- Checkout deletes the document. -/
  | delete
  deriving DecidableEq, Repr

/-- **One step.** -/
def addingStep (s : AddingState) : AddingAction → Option AddingState
  | .call order => some { s with calls := s.calls ++ [⟨order, .updating⟩] }
  | .update i =>
    match s.calls[i]? with
    | some ⟨order, .updating⟩ =>
      match s.doc with
      | some doc => some {
          doc := some (Fields.patch doc (addToCartWrite order))
          calls := s.calls.eraseIdx i
          added := order :: s.added }
      -- not found: the call goes on to put a document
      | none => some { s with calls := s.calls.set i ⟨order, .setting⟩ }
    | _ => none
  | .set i =>
    match s.calls[i]? with
    | some ⟨order, .setting⟩ => some {
        doc := some (Fields.ofUpdate (addToCartWrite order))
        calls := s.calls.eraseIdx i
        added := order :: s.added }
    | _ => none
  | .fail i =>
    match s.calls[i]? with
    | some _ => some { s with calls := s.calls.eraseIdx i }
    | none => none
  | .delete => some { s with doc := none, added := [] }

namespace AddingState

/-- The lines of the document, if there is one. -/
def lines (s : AddingState) : List OrderModel := (s.doc.bind cartItems).getD []

/-- A cart as earlier calls have left it, if there is one. -/
def start (cart : Option (List OrderModel)) : AddingState where
  doc := cart.map cartDoc
  calls := []
  added := cart.getD []

end AddingState

/-- **Adds are kept**: every line of a completed call is in the document. -/
def AddsKept (s : AddingState) : Prop := ∀ l ∈ s.added, l ∈ s.lines

/-- **The document put lands on no other line**: where a call puts its
document, the user has none by then, or one of the very line. -/
def LandsOnNoLine (s : AddingState) : AddingAction → Prop
  | .set i => ∀ c ∈ s.calls[i]?, ∀ l ∈ s.lines, l = c.order
  | _ => True

/-- What is so between the steps: the document is one of lines, and they are
those of the completed calls. -/
structure AddingKept (s : AddingState) : Prop where
  doc : s.doc = none ∨ ∃ ls, s.doc = some (cartDoc ls)
  added : ∀ l, l ∈ s.added ↔ l ∈ s.lines

namespace AddingKept

variable {s s' : AddingState} {a : AddingAction}

theorem start (cart : Option (List OrderModel)) : AddingKept (.start cart) := by
  cases cart with
  | none => exact ⟨Or.inl rfl, fun _ => Iff.rfl⟩
  | some ls =>
    refine ⟨Or.inr ⟨ls, rfl⟩, fun l => ?_⟩
    show l ∈ ls ↔ l ∈ (cartItems (cartDoc ls)).getD []
    rw [cartItems_cartDoc]
    rfl

theorem addsKept (h : AddingKept s) : AddsKept s := fun l hl => (h.added l).mp hl

/-- Only what the document and the completed calls are matters. -/
theorem congr (h : AddingKept s) (hdoc : s'.doc = s.doc) (hadded : s'.added = s.added) :
    AddingKept s' := by
  refine ⟨by rw [hdoc]; exact h.doc, fun l => ?_⟩
  rw [hadded, AddingState.lines, hdoc]
  exact h.added l

/-- **A line patched in** joins the lines of the document. -/
theorem update (h : AddingKept s) {doc : Fields} (hs : s.doc = some doc)
    {order : OrderModel} (hdoc : s'.doc = some (Fields.patch doc (addToCartWrite order)))
    (hadded : s'.added = order :: s.added) : AddingKept s' := by
  obtain ⟨ls, hls⟩ := h.doc.resolve_left (by rw [hs]; exact Option.some_ne_none _)
  obtain rfl := Option.some.inj (hs.symm.trans hls)
  rw [patch_addToCartWrite] at hdoc
  have hlines : s.lines = ls := by rw [AddingState.lines, hs]; simp
  have hlines' : s'.lines = union ls [order] := by rw [AddingState.lines, hdoc]; simp
  refine ⟨Or.inr ⟨_, hdoc⟩, fun l => ?_⟩
  rw [hadded, hlines', mem_union_singleton, List.mem_cons, h.added l, hlines]
  exact Or.comm

/-- The document put has the one line. -/
theorem lines_set {order : OrderModel}
    (hdoc : s'.doc = some (Fields.ofUpdate (addToCartWrite order))) : s'.lines = [order] := by
  rw [AddingState.lines, hdoc, ofUpdate_addToCartWrite]
  simp

/-- **A step whose document lands on no other line** keeps the lines of the
completed calls. -/
theorem step (h : AddingKept s) (hC : LandsOnNoLine s a) (hstep : addingStep s a = some s') :
    AddingKept s' := by
  unfold addingStep at hstep
  split at hstep
  · obtain rfl := Option.some.inj hstep
    exact h.congr rfl rfl
  · split at hstep
    · split at hstep
      · next hs =>
        obtain rfl := Option.some.inj hstep
        exact h.update hs rfl rfl
      · obtain rfl := Option.some.inj hstep
        exact h.congr rfl rfl
    · exact absurd hstep (by simp)
  · split at hstep
    · next order hi =>
      obtain rfl := Option.some.inj hstep
      have hother : ∀ l ∈ s.lines, l = order := hC _ hi
      refine ⟨Or.inr ⟨[order], by rw [ofUpdate_addToCartWrite]⟩, fun l => ?_⟩
      rw [lines_set rfl, List.mem_cons, List.mem_singleton, h.added l]
      exact ⟨fun hl => hl.elim id (hother l), Or.inl⟩
    · exact absurd hstep (by simp)
  · split at hstep
    · obtain rfl := Option.some.inj hstep
      exact h.congr rfl rfl
    · exact absurd hstep (by simp)
  · obtain rfl := Option.some.inj hstep
    exact ⟨Or.inl rfl, fun _ => Iff.rfl⟩

/-- **A document put over another line** loses that line. -/
theorem not_addsKept (h : AddingKept s) (hC : ¬ LandsOnNoLine s a)
    (hstep : addingStep s a = some s') : ¬ AddsKept s' := by
  intro hlaw
  unfold addingStep at hstep
  split at hstep
  · exact hC trivial
  · exact hC trivial
  · split at hstep
    · next order hi =>
      obtain rfl := Option.some.inj hstep
      refine hC (fun c hc l hl => ?_)
      obtain rfl := Option.some.inj (hi.symm.trans hc)
      have hmem := hlaw l (List.mem_cons_of_mem order ((h.added l).mpr hl))
      rw [lines_set rfl] at hmem
      exact List.mem_singleton.mp hmem
    · exact absurd hstep (by simp)
  · exact hC trivial
  · exact hC trivial

end AddingKept

/-- **When adds are kept.** From any cart, in any run of calls of `addToCart`
and deletions, the requests of the calls reaching the store in any order or
meeting an error, every line of a completed call is in the cart document until
it is deleted – exactly when no document put by a call lands on one that has
another line. -/
theorem adds_kept_iff (cart : Option (List OrderModel)) (as : List AddingAction) :
    Runs.Along addingStep AddsKept (.start cart) as
      ↔ Runs.Meets addingStep LandsOnNoLine (.start cart) as :=
  Runs.along_iff_meets (I := AddingKept) (fun _ h => h.addsKept)
    (fun _ _ _ h hC hstep => h.step hC hstep)
    (fun _ _ _ h hC hstep => h.not_addsKept hC hstep) (AddingKept.start cart)

/-- **A first add overwritten**: two calls find no document, and the second to
put one replaces what the first has put. -/
theorem first_add_overwritten :
    ¬ ∀ (cart : Option (List OrderModel)) (as : List AddingAction),
      Runs.Along addingStep AddsKept (.start cart) as := by
  intro h
  have hlaw := h none [.call (cartLine "1" 1), .call (cartLine "2" 1), .update 0, .update 1,
    .set 0, .set 0]
  exact absurd ((hlaw.last rfl) (cartLine "1" 1) (by decide)) (by decide +kernel)
