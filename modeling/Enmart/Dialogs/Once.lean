import Enmart.Dialogs.Saving

/-!
# One save a dialog

The buttons of a dialog may be tapped any number of times while it is open, and
a handler that awaits a request does not keep the next tap from starting
another. `QuantityUpdate` and the dialog of `updatePrice` have their `Ok` depend
on `isLoading`, which the handler sets before it awaits anything and clears in
the very step that closes the dialog: they start one save at most. The `Done` of
`NewItemDialog` shows `isLoading` and does not depend on it, so each tap starts
a save, of a product of its own unless the clock still shows the same
millisecond.

`dialogs_save_once` is any number of taps, on `Ok` or `Done` and on `Cancel`,
interleaved with the requests that land. A tap finds the dialog as it is: what
`setState` changes has been drawn by then.
-/

open SaveDialog

/-- The button that depends on `isLoading`. -/
def SaveDialog.okActive (s : SaveDialog) : Bool := s.mounted && !s.isLoading

/-- `Cancel`, where it is always active. -/
def SaveDialog.cancel (s : SaveDialog) : Option SaveDialog :=
  if s.mounted then some { s with mounted := false } else none

/-- `Cancel`, where it depends on `isLoading`. -/
def SaveDialog.cancelUnlessLoading (s : SaveDialog) : Option SaveDialog :=
  if s.okActive then some { s with mounted := false } else none

/-- **`QuantityUpdate`**, its `Ok` tapped with the text that is in the field
then. -/
def QuantityUpdate.step (d : QuantityUpdate) :=
  Handler.step d.okPressed okActive cancel

/-- **The dialog of `updatePrice`.** -/
def updatePriceStep (userId : String) :=
  Handler.step (updatePricePressed userId) okActive cancelUnlessLoading

/-- **`NewItemDialog`, for a new product**, its `Done` tapped at a moment. -/
def NewItemDialog.step :=
  Handler.step (fun a : DateTime × ItemFields => NewItemDialog.donePressed none a.fst a.snd)
    SaveDialog.mounted cancelUnlessLoading

/-- The write that books an amount. -/
def DispatchWrite.isAdd : DispatchWrite → Bool
  | remove _ => false
  | add _ => true

/-- **One product at most is created**: whatever has been put was put under one
id. -/
def CreatesOne (r : Handler.Running SaveDialog ProductModel) : Prop :=
  ∀ m ∈ r.landed, ∀ m' ∈ r.landed, m.id = m'.id

/-- **No save is under way under another id** where a save is begun. -/
def BeginsAlone (r : Handler.Running SaveDialog ProductModel) :
    Handler.Event (DateTime × ItemFields) → Prop
  | .tap a => a.snd.HasEmpty ∨
    ∀ p ∈ r.pending, p.fst.id = toString a.fst.millisecondsSinceEpoch
  | _ => True

/-! ## The guarded buttons -/

section Guarded

/-- A `Cancel` that is active closes the dialog and changes nothing else. -/
theorem eq_of_cancelled {P : Prop} [Decidable P] {s s' : SaveDialog}
    (h : (if P then some { s with mounted := false } else none) = some s') :
    s' = { s with mounted := false } := by
  split at h
  · exact (Option.some.inj h).symm
  · exact absurd h (by simp)

/-- A dialog that is cancelled has no `Ok` any more. -/
theorem okActive_cancel {s s' : SaveDialog} (h : s.cancel = some s') :
    s'.okActive = false := by
  obtain rfl := eq_of_cancelled h
  rfl

theorem okActive_cancelUnlessLoading {s s' : SaveDialog}
    (h : s.cancelUnlessLoading = some s') : s'.okActive = false := by
  obtain rfl := eq_of_cancelled h
  rfl

/-- A tap leaves the dialog loading: it is set before anything else. -/
theorem setLoading_of_okActive {s : SaveDialog} (h : s.okActive = true) :
    setLoading true s = some ⟨true, true⟩ := by
  obtain ⟨mounted, isLoading⟩ := s
  have hmounted : mounted = true := (Bool.and_eq_true_iff.mp h).1
  subst hmounted
  rfl

/-- The end of a dispatch closes the dialog, if nothing else has. -/
theorem okActive_finish (s : SaveDialog) :
    okActive (@Handler.segment _ DispatchWrite
      (.sync (setLoading false) (.sync popIfMounted .done)) s).fst = false := by
  obtain ⟨mounted, isLoading⟩ := s
  cases mounted with
  | true => rfl
  | false => rfl

/-- The end of saving a special price closes the dialog, if nothing else has. -/
theorem okActive_finishIfMounted (s : SaveDialog) :
    okActive (@Handler.segment _ SpecialPriceModel (.sync finishIfMounted .done) s).fst
      = false := by
  obtain ⟨mounted, isLoading⟩ := s
  cases mounted with
  | true => rfl
  | false => rfl

/-- **`QuantityUpdate` books one dispatch at most.** -/
theorem QuantityUpdate.saves_once (d : QuantityUpdate)
    (es : List (Handler.Event String)) :
    Runs.Along d.step (fun r => r.landed.countP DispatchWrite.isAdd ≤ 1)
      (Handler.Running.start opened) es := by
  refine (Handler.once (fun text s hs => ?_) (fun text k hk s hs => ?_)
    (fun s s' _ h => okActive_cancel h) opened es).imp (fun r hr => ?_)
  · unfold okPressed Handler.segment
    rw [setLoading_of_okActive hs]
    cases d.updateMethod text with
    | none => rfl
    | some c => rfl
  · unfold okPressed at hk
    cases hc : d.updateMethod text with
    | none =>
      rw [hc] at hk
      exact absurd hk List.not_mem_nil
    | some c =>
      rw [hc] at hk
      -- what is left after the first request, or after the second
      rcases List.mem_cons.mp hk with rfl | hk
      · exact hs
      · obtain rfl := List.mem_singleton.mp hk
        exact okActive_finish s
  · rcases hr with hnone | ⟨text, hfirst⟩
    · rw [hnone]
      exact Nat.zero_le 1
    · refine le_trans (hfirst.sublist.countP_le) ?_
      unfold okPressed
      cases d.updateMethod text with
      | none => exact Nat.zero_le 1
      | some c => exact le_refl 1

/-- **The dialog of `updatePrice` writes one special price at most.** -/
theorem updatePrice_saves_once (userId : String) (es : List (Handler.Event String)) :
    Runs.Along (updatePriceStep userId) (fun r => r.landed.length ≤ 1)
      (Handler.Running.start opened) es := by
  refine (Handler.once (fun number s hs => ?_)
    (fun number k hk s hs => ?_) (fun s s' _ h => okActive_cancelUnlessLoading h) opened es).imp
    (fun r hr => ?_)
  · unfold updatePricePressed Handler.segment
    rw [setLoading_of_okActive hs]
    cases intTryParse number with
    | none => rfl
    | some price => rfl
  · unfold updatePricePressed at hk
    cases hn : intTryParse number with
    | none =>
      rw [hn] at hk
      exact absurd hk List.not_mem_nil
    | some price =>
      rw [hn] at hk
      obtain rfl := List.mem_singleton.mp hk
      exact okActive_finishIfMounted s
  · rcases hr with hnone | ⟨number, hfirst⟩
    · rw [hnone]
      exact Nat.zero_le 1
    · refine le_trans hfirst.length_le ?_
      unfold updatePricePressed
      cases intTryParse number with
      | none => exact Nat.zero_le 1
      | some price => exact le_refl 1

end Guarded

/-! ## The button that is not -/

section Unguarded

/-- What is so between the events: all that is under way or has landed is under
one id, and once something has landed the dialog is closed. -/
structure UnderOneId (id : String) (r : Handler.Running SaveDialog ProductModel) : Prop where
  pending : ∀ p ∈ r.pending, p.fst.id = id ∧ p.snd = .sync popIfMounted .done
  landed : ∀ m ∈ r.landed, m.id = id
  closed : r.landed ≠ [] → r.state.mounted = false

variable {r r' : Handler.Running SaveDialog ProductModel} {id : String}

/-- The end of a save closes the dialog. -/
theorem resume_popIfMounted (r : Handler.Running SaveDialog ProductModel) :
    r.resume (.sync popIfMounted .done)
      = { r with state := { r.state with mounted := false } } := rfl

/-- A save of a new product is begun: it awaits its request. -/
theorem resume_donePressed {now : DateTime} {f : ItemFields} (hempty : ¬ f.HasEmpty)
    (hmounted : r.state.mounted = true) :
    r.resume (NewItemDialog.donePressed none now f)
      = { r with
          state := ⟨true, true⟩
          pending := r.pending ++ [(f.product none now, .sync popIfMounted .done)] } := by
  obtain ⟨⟨mounted, isLoading⟩, pending, landed⟩ := r
  obtain rfl : mounted = true := hmounted
  unfold NewItemDialog.donePressed
  rw [if_neg hempty]
  rfl

/-- **An event that begins no save beside another** keeps all under one id. -/
theorem UnderOneId.step (h : ∃ id, UnderOneId id r)
    {e : Handler.Event (DateTime × ItemFields)} (hC : BeginsAlone r e)
    (hstep : NewItemDialog.step r e = some r') : ∃ id, UnderOneId id r' := by
  obtain ⟨id, hid⟩ := h
  cases e with
  | tap a =>
    obtain ⟨now, f⟩ := a
    obtain ⟨hactive, rfl⟩ := Handler.step_tap.mp hstep
    by_cases hempty : f.HasEmpty
    · have hdone : r.resume (NewItemDialog.donePressed none now f) = r := by
        unfold NewItemDialog.donePressed
        rw [if_pos hempty]
        rfl
      show ∃ id, UnderOneId id (r.resume (NewItemDialog.donePressed none now f))
      rw [hdone]
      exact ⟨id, hid⟩
    · -- the dialog is open, so nothing has landed yet
      have hnone : r.landed = [] := by
        by_contra hne
        rw [hid.closed hne] at hactive
        exact Bool.false_ne_true hactive
      show ∃ id, UnderOneId id (r.resume (NewItemDialog.donePressed none now f))
      rw [resume_donePressed hempty hactive]
      refine ⟨toString now.millisecondsSinceEpoch, fun p hp => ?_, fun m hm => ?_,
        fun hne => absurd hnone hne⟩
      · rcases List.mem_append.mp hp with hp | hp
        · exact ⟨hC.resolve_left hempty p hp, (hid.pending p hp).2⟩
        · obtain rfl := List.mem_singleton.mp hp
          exact ⟨rfl, rfl⟩
      · have hm' : m ∈ r.landed := hm
        rw [hnone] at hm'
        exact absurd hm' List.not_mem_nil
  | land i =>
    obtain ⟨⟨m, k⟩, hi, rfl⟩ := Option.map_eq_some_iff.mp hstep
    have hmem : (m, k) ∈ r.pending := List.mem_of_getElem? hi
    obtain ⟨hm, hk⟩ := hid.pending (m, k) hmem
    obtain rfl : k = .sync popIfMounted .done := hk
    rw [resume_popIfMounted]
    refine ⟨id, fun p hp => hid.pending p (List.mem_of_mem_eraseIdx hp), fun m' hm' => ?_,
      fun _ => rfl⟩
    rcases List.mem_append.mp hm' with hm' | hm'
    · exact hid.landed m' hm'
    · obtain rfl := List.mem_singleton.mp hm'
      exact hm
  | leave =>
    obtain ⟨s, hs, rfl⟩ := Option.map_eq_some_iff.mp hstep
    refine ⟨id, hid.pending, hid.landed, fun hne => ?_⟩
    obtain rfl := eq_of_cancelled hs
    rfl

/-- **`NewItemDialog` creates one product at most** in every run in which a save
is begun only while none is under way under another id. -/
theorem NewItemDialog.creates_one {es : List (Handler.Event (DateTime × ItemFields))}
    (h : Runs.Meets NewItemDialog.step BeginsAlone (Handler.Running.start opened) es) :
    Runs.Along NewItemDialog.step CreatesOne (Handler.Running.start opened) es := by
  have hstart : ∃ id, UnderOneId id (Handler.Running.start opened) :=
    ⟨"", fun p hp => absurd hp List.not_mem_nil, fun m hm => absurd hm List.not_mem_nil,
      fun hne => absurd rfl hne⟩
  refine (Runs.along_of_meets (I := fun r => ∃ id, UnderOneId id r) (C := BeginsAlone)
    (fun _ _ _ hI hC hstep => UnderOneId.step hI hC hstep) hstart h).imp (fun r hr => ?_)
  obtain ⟨id, hid⟩ := hr
  intro m hm m' hm'
  rw [hid.landed m hm, hid.landed m' hm']

end Unguarded

/-- **When one dialog saves once.** In every sequence of taps on the buttons of
one dialog, interleaved in any way with the requests that land, `QuantityUpdate`
books one dispatch at most and the dialog of `updatePrice` writes one special
price at most; and `NewItemDialog` creates one product at most if every save is
begun while none is under way under another id. -/
theorem dialogs_save_once (d : QuantityUpdate) (userId : String)
    (es : List (Handler.Event String)) (es' : List (Handler.Event (DateTime × ItemFields)))
    (h : Runs.Meets NewItemDialog.step BeginsAlone (Handler.Running.start opened) es') :
    Runs.Along d.step (fun r => r.landed.countP DispatchWrite.isAdd ≤ 1)
        (Handler.Running.start opened) es
      ∧ Runs.Along (updatePriceStep userId) (fun r => r.landed.length ≤ 1)
        (Handler.Running.start opened) es
      ∧ Runs.Along NewItemDialog.step CreatesOne (Handler.Running.start opened) es' :=
  ⟨d.saves_once es, updatePrice_saves_once userId es, NewItemDialog.creates_one h⟩

/-- The law at work: `Ok` and `Done` tapped, and their requests landed. -/
theorem dialogs_save_once_landed :
    Runs.Along (QuantityUpdate.step ⟨cartLine "1" 4, cartToOrder "u" ⟨0⟩ [cartLine "1" 4]⟩)
        (fun r => r.landed.countP DispatchWrite.isAdd ≤ 1)
        (Handler.Running.start opened) [.tap "1", .land 0, .land 0]
      ∧ Runs.Along (updatePriceStep "u") (fun r => r.landed.length ≤ 1)
        (Handler.Running.start opened) [.tap "1", .land 0, .land 0]
      ∧ Runs.Along NewItemDialog.step CreatesOne
        (Handler.Running.start opened) [.tap (⟨1000⟩, ⟨"c", "m", "1", "5"⟩), .land 0] := by
  refine dialogs_save_once _ "u" [.tap "1", .land 0, .land 0]
    [.tap (⟨1000⟩, ⟨"c", "m", "1", "5"⟩), .land 0] ?_
  intro r hr
  refine ⟨Or.inr (fun p hp => absurd hp List.not_mem_nil), fun r' _ => ⟨trivial, trivial⟩⟩

/-- **A product created twice**: `Done` is tapped again a millisecond later,
before the first save has landed. -/
theorem product_created_twice :
    ¬ ∀ es, Runs.Along NewItemDialog.step CreatesOne (Handler.Running.start opened) es := by
  intro h
  have hlaw := (h [.tap (⟨1000⟩, ⟨"c", "m", "1", "5"⟩), .tap (⟨2000⟩, ⟨"c", "m", "1", "5"⟩),
    .land 0, .land 0]).last rfl
  have hid := hlaw (ItemFields.product ⟨"c", "m", "1", "5"⟩ none ⟨1000⟩) (List.mem_cons_self ..)
    (ItemFields.product ⟨"c", "m", "1", "5"⟩ none ⟨2000⟩)
    (List.mem_cons_of_mem _ (List.mem_cons_self ..))
  exact absurd hid (by decide +kernel)
