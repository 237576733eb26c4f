import Enmart.Base.Handlers
import Enmart.Orders.Dispatch
import Enmart.Products.SpecialPrices
import Enmart.Records.Creation

/-!
# The dialogs that save

Three dialogs save what has been typed in them: `QuantityUpdate` a dispatch,
the one `updatePrice` opens a special price, and `NewItemDialog` a product. Each
sets `isLoading`, saves, and is closed – and each does it in a handler of its
own. What a handler does once something goes wrong is in none of them: an
exception raised by a text that is no number, or by a request that fails,
leaves the dialog where it is, loading. And `NewItemDialog` does not ask
whether its quantity is a number before it saves it; one that is none is saved
as 0. Nor does the dialog of a special price read its field: it keeps a number of
its own, which follows the field once that is changed, and is 0 before – so 0 is
saved of a field nothing has been typed in.

`save_dialogs_usable_iff` is what has to be right for a dialog to be usable
after its handler has ended, and for nothing to be saved of a text that is no
number.

`setState` raises an exception once the dialog is closed.
-/

/-- **A dialog that saves**, as far as its handlers change it. -/
structure SaveDialog where
  /-- It has not been closed. -/
  mounted : Bool
  isLoading : Bool
  deriving DecidableEq, Repr

namespace SaveDialog

/-- A dialog that has just been opened. -/
def opened : SaveDialog := ⟨true, false⟩

/-- `setState`. -/
def setLoading (isLoading : Bool) (s : SaveDialog) : Option SaveDialog :=
  if s.mounted then some { s with isLoading := isLoading } else none

/-- `context.pop`, where the dialog is still there. -/
def popIfMounted (s : SaveDialog) : Option SaveDialog := some { s with mounted := false }

/-- `isLoading` is cleared and the dialog closed, where it is still there. -/
def finishIfMounted (s : SaveDialog) : Option SaveDialog :=
  if s.mounted then some ⟨false, false⟩ else some s

end SaveDialog

open SaveDialog

/-! ## The handlers -/

/-- The requests of a dispatch. -/
inductive DispatchWrite where
  /-- The line is taken out. -/
  | remove (c : DispatchCall)
  /-- The line is put back, with the amount booked. -/
  | add (c : DispatchCall)
  deriving DecidableEq, Repr

/-- **`updateMethod` of `QuantityUpdate`**, with the text in its field. -/
def QuantityUpdate.okPressed (d : QuantityUpdate) (text : String) :
    Handler SaveDialog DispatchWrite :=
  .sync (setLoading true) <|
    match d.updateMethod text with
    -- `int.parse`, before the first request
    | none => .throw
    | some c => .await (.remove c) <| .await (.add c) <| .sync (setLoading false) <|
      .sync popIfMounted .done

/-- **The field of the dialog `updatePrice` opens**, and the number kept beside
it. -/
structure SpecialPriceField where
  text : String
  number : String
  deriving DecidableEq, Repr

namespace SpecialPriceField

/-- The field is empty when the dialog opens, and the number is not. -/
def opened : SpecialPriceField := ⟨"", "0"⟩

/-- `onChanged`, with the text the field has been changed to. -/
def onChanged (_ : SpecialPriceField) (text : String) : SpecialPriceField := ⟨text, text⟩

/-- **The field after changes**, with the texts it has had. -/
def changed (texts : List String) : SpecialPriceField := texts.foldl onChanged opened

/-- Once the field has been changed, the number is its text. -/
theorem number_changed {texts : List String} (h : texts ≠ []) :
    (changed texts).number = (changed texts).text := by
  obtain ⟨init, text, rfl⟩ := List.eq_nil_or_concat texts |>.resolve_left h
  rw [changed, List.concat_eq_append, List.foldl_append]
  rfl

end SpecialPriceField

/-- **The handler of the dialog `updatePrice` opens**, with the number in it. -/
def updatePricePressed (userId number : String) : Handler SaveDialog SpecialPriceModel :=
  .sync (setLoading true) <|
    match intTryParse number with
    | none => .throw
    | some price => .await ⟨userId, some price⟩ <| .sync finishIfMounted .done

/-- The texts in the fields of `NewItemDialog`. -/
structure ItemFields where
  code : String
  material : String
  quantity : String
  price : String
  deriving DecidableEq, Repr

namespace ItemFields

/-- A field is empty. -/
def HasEmpty (f : ItemFields) : Prop :=
  f.code = "" ∨ f.material = "" ∨ f.quantity = "" ∨ f.price = ""

instance (f : ItemFields) : Decidable f.HasEmpty := inferInstanceAs (Decidable (_ ∨ _))

/-- The texts of the quantity and of the price are numbers. -/
def IsValid (f : ItemFields) : Prop :=
  (intTryParse f.quantity).isSome ∧ (doubleTryParse f.price).isSome

/-- The product the dialog saves: under the id of the product updated, or of the
millisecond. -/
def product (f : ItemFields) (toUpdate : Option ProductModel) (now : DateTime) : ProductModel :=
  match toUpdate with
  | some copyOf => { newItem now f.code f.material f.quantity
      (((doubleTryParse f.price).map Number.double).getD (.int 0)) with id := copyOf.id }
  | none => newItem now f.code f.material f.quantity
      (((doubleTryParse f.price).map Number.double).getD (.int 0))

end ItemFields

/-- **The handler of `NewItemDialog`**, which updates a product or makes a new
one. -/
def NewItemDialog.donePressed (toUpdate : Option ProductModel) (now : DateTime)
    (f : ItemFields) : Handler SaveDialog ProductModel :=
  if f.HasEmpty then .done
  else
    .sync (setLoading true) <| .await (f.product toUpdate now) <|
      match toUpdate with
      | none => .sync popIfMounted .done
      | some _ => .sync (setLoading false) <|
        -- `double.parse` and `int.parse`, for the product shown behind the dialog
        match doubleTryParse f.price, intTryParse f.quantity with
        | some _, some _ => .sync popIfMounted .done
        | _, _ => .throw

/-! ## A save alone -/

/-- **A dialog is usable after a save, and nothing was saved of what is no
number.** -/
structure LeavesUsable {ω : Type} (o : Handler.Outcome SaveDialog ω) (valid : Prop) : Prop where
  usable : o.state.isLoading = false ∨ o.state.mounted = false
  unchanged : ¬ valid → o.landed = []

/-- A dialog left loading is not usable. -/
theorem not_leavesUsable_of_loading {ω : Type} {landed : List ω} {normal : Bool} {valid : Prop} :
    ¬ LeavesUsable ⟨⟨true, true⟩, landed, normal⟩ valid := by
  intro h
  rcases h.usable with hloading | hmounted
  · exact Bool.false_ne_true hloading.symm
  · exact Bool.false_ne_true hmounted.symm

/-- A dialog that is closed after a valid save is. -/
theorem leavesUsable_of_closed {ω : Type} {o : Handler.Outcome SaveDialog ω} {valid : Prop}
    (hmounted : o.state.mounted = false) (hvalid : valid) : LeavesUsable o valid :=
  ⟨Or.inr hmounted, fun h => absurd hvalid h⟩

section Alone

variable (ok : ℕ → Bool)

/-- **`QuantityUpdate`**, with both requests of the dispatch. -/
theorem QuantityUpdate.leavesUsable_iff (d : QuantityUpdate) (text : String) :
    LeavesUsable ((d.okPressed text).exec ok opened) (intTryParse text).isSome
      ↔ (intTryParse text).isSome ∧ ok 0 = true ∧ ok 1 = true := by
  unfold okPressed updateMethod
  cases intTryParse text with
  | none =>
    exact iff_of_false not_leavesUsable_of_loading (fun hc => Bool.false_ne_true hc.1)
  | some n =>
    show LeavesUsable (Handler.exec (.await _ (.await _ _)) ok ⟨true, true⟩) _ ↔ _
    unfold Handler.exec
    by_cases h₀ : ok 0 = true
    · rw [if_pos h₀]
      unfold Handler.exec
      by_cases h₁ : ok 1 = true
      · rw [if_pos h₁]
        exact iff_of_true (leavesUsable_of_closed rfl rfl) ⟨rfl, h₀, h₁⟩
      · rw [if_neg h₁]
        exact iff_of_false not_leavesUsable_of_loading (fun hc => h₁ hc.2.2)
    · rw [if_neg h₀]
      exact iff_of_false not_leavesUsable_of_loading (fun hc => h₀ hc.2.1)

/-- **The dialog of `updatePrice`**, where the number is the text of its field. -/
theorem updatePricePressed_leavesUsable_iff (userId number : String) :
    LeavesUsable ((updatePricePressed userId number).exec ok opened) (intTryParse number).isSome
      ↔ (intTryParse number).isSome ∧ ok 0 = true := by
  unfold updatePricePressed
  cases intTryParse number with
  | none =>
    exact iff_of_false not_leavesUsable_of_loading (fun hc => Bool.false_ne_true hc.1)
  | some price =>
    show LeavesUsable (Handler.exec (.await _ _) ok ⟨true, true⟩) _ ↔ _
    unfold Handler.exec
    by_cases h₀ : ok 0 = true
    · rw [if_pos h₀]
      exact iff_of_true (leavesUsable_of_closed rfl rfl) ⟨rfl, h₀⟩
    · rw [if_neg h₀]
      exact iff_of_false not_leavesUsable_of_loading (fun hc => h₀ hc.2)

/-- **The dialog of `updatePrice`**, after any changes of its field. -/
theorem SpecialPriceField.leavesUsable_iff (userId : String) (texts : List String) :
    LeavesUsable ((updatePricePressed userId (changed texts).number).exec ok SaveDialog.opened)
        (intTryParse (changed texts).text).isSome
      ↔ (intTryParse (changed texts).text).isSome ∧ ok 0 = true := by
  by_cases hne : texts = []
  · -- nothing has been typed: 0 is saved, if the request succeeds
    subst hne
    have hempty : ¬ (intTryParse "").isSome = true := by decide +kernel
    have hzero : intTryParse "0" = some 0 := by decide +kernel
    refine iff_of_false (fun h => ?_) (fun h => hempty h.1)
    have hlanded := h.unchanged hempty
    have hvalid : (intTryParse "0").isSome = true := Option.isSome_iff_exists.mpr ⟨0, hzero⟩
    have husable := (updatePricePressed_leavesUsable_iff ok userId "0").mp
      ⟨h.usable, fun hinvalid => absurd hvalid hinvalid⟩
    have hsaved : ((updatePricePressed userId "0").exec ok SaveDialog.opened).landed
        = [⟨userId, some 0⟩] := by
      unfold updatePricePressed
      rw [hzero]
      show (Handler.exec (.await _ _) ok (⟨true, true⟩ : SaveDialog)).landed = _
      unfold Handler.exec
      rw [if_pos husable.2]
      rfl
    exact absurd (hsaved.symm.trans hlanded) (List.cons_ne_nil _ _)
  · rw [number_changed hne]
    exact updatePricePressed_leavesUsable_iff ok userId _

/-- **`NewItemDialog`**, whether it updates a product or makes a new one. -/
theorem NewItemDialog.leavesUsable_iff (toUpdate : Option ProductModel) (now : DateTime)
    (f : ItemFields) :
    LeavesUsable ((donePressed toUpdate now f).exec ok opened) f.IsValid
      ↔ f.HasEmpty ∨ f.IsValid ∧ ok 0 = true := by
  unfold donePressed
  by_cases hempty : f.HasEmpty
  · rw [if_pos hempty]
    exact iff_of_true ⟨Or.inl rfl, fun _ => rfl⟩ (Or.inl hempty)
  · rw [if_neg hempty, or_iff_right hempty]
    show LeavesUsable (Handler.exec (.await _ _) ok ⟨true, true⟩) _ ↔ _
    unfold Handler.exec
    by_cases h₀ : ok 0 = true
    · rw [if_pos h₀]
      by_cases hvalid : f.IsValid
      · refine iff_of_true (leavesUsable_of_closed ?_ hvalid) ⟨hvalid, h₀⟩
        obtain ⟨n, hn⟩ := Option.isSome_iff_exists.mp hvalid.1
        obtain ⟨q, hq⟩ := Option.isSome_iff_exists.mp hvalid.2
        cases toUpdate with
        | none => rfl
        | some copyOf =>
          show (Handler.exec (match doubleTryParse f.price, intTryParse f.quantity with
            | some _, some _ => .sync popIfMounted .done
            | _, _ => .throw) _ ⟨true, false⟩).state.mounted = false
          rw [hn, hq]
          rfl
      · -- the request has landed, whatever follows it
        exact iff_of_false (fun h => List.cons_ne_nil _ _ (h.unchanged hvalid))
          (fun hc => hvalid hc.1)
    · rw [if_neg h₀]
      exact iff_of_false not_leavesUsable_of_loading (fun hc => h₀ hc.2)

/-- **When the dialogs that save are left usable.** For every text, all changes of
the field of a special price, and every outcome of the requests: `QuantityUpdate`
and the dialog of `updatePrice` exactly when the text in the field is an integer
and all requests succeed; `NewItemDialog` exactly when a field is empty, or its
numbers are numbers and its request succeeds. -/
theorem save_dialogs_usable_iff (ok : ℕ → Bool) :
    (∀ (d : QuantityUpdate) (text : String),
      LeavesUsable ((d.okPressed text).exec ok opened) (intTryParse text).isSome
        ↔ (intTryParse text).isSome ∧ ok 0 = true ∧ ok 1 = true)
      ∧ (∀ (userId : String) (texts : List String),
        LeavesUsable
            ((updatePricePressed userId (SpecialPriceField.changed texts).number).exec ok opened)
            (intTryParse (SpecialPriceField.changed texts).text).isSome
          ↔ (intTryParse (SpecialPriceField.changed texts).text).isSome ∧ ok 0 = true)
      ∧ ∀ (toUpdate : Option ProductModel) (now : DateTime) (f : ItemFields),
        LeavesUsable ((NewItemDialog.donePressed toUpdate now f).exec ok opened) f.IsValid
          ↔ f.HasEmpty ∨ f.IsValid ∧ ok 0 = true :=
  ⟨QuantityUpdate.leavesUsable_iff ok, SpecialPriceField.leavesUsable_iff ok,
    NewItemDialog.leavesUsable_iff ok⟩

end Alone

/-- **A dialog loading for ever**: `Ok` is tapped on an empty field. And **a price
that was not typed**: in the dialog of a special price that saves 0. -/
theorem empty_text_loads_forever :
    ¬ LeavesUsable
        ((QuantityUpdate.okPressed ⟨cartLine "1" 4, cartToOrder "u" ⟨0⟩ [cartLine "1" 4]⟩ "").exec
          (fun _ => true) opened) (intTryParse "").isSome
      ∧ ((updatePricePressed "u" SpecialPriceField.opened.number).exec
          (fun _ => true) opened).landed = [⟨"u", some 0⟩] := by
  refine ⟨fun h => ?_, by decide +kernel⟩
  exact absurd h.usable (by decide +kernel)
